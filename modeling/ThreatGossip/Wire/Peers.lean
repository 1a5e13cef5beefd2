import ThreatGossip.Node
/-!
JSON forms of peers, introductions and a node's figures.
-/
namespace ThreatGossip

open Json (Format Record)
open Json.Record (field fieldOr)

def Standing.format : Format Standing :=
  .choice (Standing.all.map fun s => (s.name, s)) Standing.name

/-- The key and the trust score may be missing. -/
def Introduction.format : Format Introduction :=
  ((field "id" .string).and ((field "address" .string).and
    ((fieldOr "public_key" .bytes (fun _ => some []) (fun _ => false)).and
      (fieldOr "trust_score" (Format.nullable .double) (fun _ => some none) (fun _ => false))))).imap
        (fun (id, address, publicKey, trust) => ⟨id, address, publicKey, trust⟩)
        (fun n => (n.id, n.address, n.publicKey, n.trust)) |>.format

def Peer.format : Format Peer :=
  ((field "id" .string).and ((field "address" .string).and ((field "public_key" .bytes).and
    ((field "last_seen" .count).and ((field "status" Standing.format).and
      ((field "trust_score" .double).and ((field "version" Clock.format).and
        (field "consecutive_failures" .word32)))))))).imap
          (fun (id, address, publicKey, lastSeen, standing, trust, version, failures) =>
            ⟨id, address, publicKey, lastSeen, standing, trust, version, failures⟩)
          (fun p => (p.id, p.address, p.publicKey, p.lastSeen, p.standing, p.trust, p.version,
            p.failures)) |>.format

def tally : Format Nat := .below UInt64.size

/-- The five figures of a census under the given names. -/
def Census.record (total active suspicious quarantined offline : String) : Record Census :=
  ((field total tally).and ((field active tally).and ((field suspicious tally).and
    ((field quarantined tally).and (field offline tally))))).imap
      (fun (total, active, suspicious, quarantined, offline) =>
        ⟨total, active, suspicious, quarantined, offline⟩)
      (fun c => (c.total, c.active, c.suspicious, c.quarantined, c.offline))

def Census.format : Format Census :=
  (Census.record "total" "active" "suspicious" "quarantined" "offline").format

def Summary.format : Format Summary :=
  ((field "node_id" .string).and
    ((Census.record "total_peers" "active_peers" "suspicious_peers" "quarantined_peers"
      "offline_peers").and
      ((field "threat_intel_count" tally).and ((field "detection_rules" tally).and
        ((field "aggregated_metrics" (Format.between minSigned maxSigned)).and
          ((fieldOr "last_full_sync" (Format.nullable .count)
            (fun | .object => some none | .array => none) (fun _ => false)).and
            (field "threat_intel_root" .string))))))).imap
              (fun (id, census, threats, rules, metric, lastFullSync, root) =>
                ⟨id, census, threats, rules, metric, lastFullSync, root⟩)
              (fun s => (s.id, s.census, s.threats, s.rules, s.metric, s.lastFullSync, s.root))
      |>.format

end ThreatGossip
