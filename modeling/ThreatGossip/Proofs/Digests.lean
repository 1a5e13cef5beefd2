import ThreatGossip.Proofs.HashTrees
import ThreatGossip.Proofs.Json.Replicas
import ThreatGossip.Proofs.Paths
/-!
What the digest of a node says about its threats. The block of a register tells its key and its
text, so the blocks of a node are distinct, and two nodes with one root hold registers that are
written alike, key by key.
-/
namespace ThreatGossip

namespace Hex

theorem hexValue?_hexDigit : ∀ n < 16, Json.hexValue? (Json.hexDigit n) = some n := by decide

theorem decodeChars_encode (bytes : List UInt8) :
    decodeChars (encode bytes).toList = some bytes := by
  rw [encode, String.toList_ofList]
  induction bytes with
  | nil => rfl
  | cons b bytes ih =>
      have value : UInt8.ofNat (b.toNat / 16 * 16 + b.toNat % 16) = b := by
        rw [Nat.div_add_mod', UInt8.ofNat_toNat]
      rw [List.flatMap_cons, List.cons_append, List.singleton_append, decodeChars,
        hexValue?_hexDigit _ (Http.Encoding.high_lt b),
        hexValue?_hexDigit _ (Http.Encoding.low_lt b), ih]
      simp only [Option.bind_eq_bind, Option.bind_some, value]

theorem encode_inj {bytes others : List UInt8} (same : encode bytes = encode others) :
    bytes = others := by
  have read := decodeChars_encode bytes
  rw [same, decodeChars_encode] at read
  exact (Option.some.inj read).symm

end Hex

theorem Digest.hex_inj {a b : Digest} (h : a.hex = b.hex) : a = b :=
  Digest.bytes_inj (Hex.encode_inj h)

theorem toUTF8_inj {s t : String} (h : s.toUTF8.toList = t.toUTF8.toList) : s = t := by
  rw [ByteArray.toList, ByteArray.toList, Http.toList_loop, Http.toList_loop] at h
  exact String.toByteArray_inj.mp (ByteArray.ext (Array.toList_inj.mp h))

namespace Node

open Json (Document Format Tree)

/-- The blocks of a node's hash tree, in key order. -/
def blocks (n : Node) : List (List UInt8) := n.threats.registers.entries.map block

/-- How a register is written in a digest. -/
def registerText (r : Register (Option Document)) : String :=
  (Register.recordOf (optionalValue Format.document)).format.encode r

/-- A block tells its key and the text of its register. -/
theorem block_inj {e f : String × Register (Option Document)} (h : block e = block f) :
    e.1 = f.1 ∧ registerText e.2 = registerText f.2 := by
  have text := congrArg String.toList (toUTF8_inj h)
  rw [Tree.text, Tree.text, String.toList_ofList, String.toList_ofList] at text
  obtain ⟨key, rest⟩ := Json.quoteOnto_inj (List.cons.inj text).2
  have written := (List.cons.inj rest).2
  rw [Tree.onto_eq, Tree.onto_eq] at written
  exact ⟨key, String.toList_inj.mp (List.append_cancel_right written)⟩

theorem nodup_blocks (n : Node) : n.blocks.Nodup := by
  have keys : (n.threats.registers.entries.map Prod.fst).Nodup := n.threats.registers.nodup_keys
  refine (keys.of_map Prod.fst).map_on fun e listed f listed' same => ?_
  exact List.inj_on_of_nodup_map keys listed listed' (block_inj same).1

/-- Registers with one list of blocks are written alike under the same keys. -/
theorem texts_eq_of_blocks : ∀ {es fs : List (String × Register (Option Document))},
    es.map block = fs.map block →
      es.map (fun e => (e.1, registerText e.2)) = fs.map fun e => (e.1, registerText e.2)
  | [], [], _ => rfl
  | [], _ :: _, h | _ :: _, [], h => nomatch h
  | e :: es, f :: fs, h => by
    obtain ⟨first, rest⟩ := List.cons.inj h
    obtain ⟨key, text⟩ := block_inj first
    rw [List.map_cons, List.map_cons, texts_eq_of_blocks rest, key, text]

end Node

/-- Where the hash sets them apart, two lists of blocks without repeats are the same if the roots of
their trees are. So two nodes with one root, whose blocks SHA-256 sets apart, hold the same keys in
the same order, with registers that are written alike. -/
theorem root_identifies_blocks :
    (∀ (hash : List UInt8 → Digest) (xs ys : List (List UInt8)), xs.Nodup → ys.Nodup →
      MerkleTree.Separates hash xs ys →
        (MerkleTree.build hash xs).root = (MerkleTree.build hash ys).root → xs = ys) ∧
    (∀ m n : Node, MerkleTree.Separates Digest.sha256 m.blocks n.blocks →
      m.summary.root = n.summary.root →
        m.threats.registers.entries.map (fun e => (e.1, Node.registerText e.2)) =
          n.threats.registers.entries.map fun e => (e.1, Node.registerText e.2)) := by
  refine ⟨fun hash xs ys distinct distinct' h => h.eq_of_root distinct distinct', ?_⟩
  intro m n h same
  exact Node.texts_eq_of_blocks <|
    h.eq_of_root m.nodup_blocks n.nodup_blocks (Digest.hex_inj same)

/-- Under a checksum of one byte, three blocks are not taken for four; under SHA-256 a delete marker
and a stored `null` have one root, and are written alike. -/
theorem root_identifies_deletion :
    let checksum : List UInt8 → Digest := fun block =>
      ⟨List.replicate 31 0 ++ [block.foldl (fun sum byte => 3 * sum + byte + 1) 0], rfl⟩
    let register (value : Option Json.Document) : Register (Option Json.Document) :=
      ⟨value, 7, .ofList [("a", 2)], "a"⟩
    let node (value : Option Json.Document) : Node :=
      { Node.empty "n" with threats := ⟨"n", .ofList [("a", 2)], .ofList [("k", register value)]⟩ }
    let m := node none
    let n := node (some (.ofTree .null))
    (MerkleTree.Separates checksum [[1], [2], [3]] [[1], [2], [3], [4]] ∧
      (MerkleTree.build checksum [[1], [2], [3]]).root ≠
        (MerkleTree.build checksum [[1], [2], [3], [4]]).root) ∧
      MerkleTree.Separates Digest.sha256 m.blocks n.blocks ∧ m.summary.root = n.summary.root ∧
        m.blocks = n.blocks ∧ [("k", Node.registerText (register none))] =
          [("k", Node.registerText (register (some (.ofTree .null))))] := by
  intro checksum register node m n
  have separated : MerkleTree.Separates checksum [[1], [2], [3]] [[1], [2], [3], [4]] := by
    unfold checksum
    decide +kernel
  have blocks : n.blocks = m.blocks := by
    unfold n m node register
    decide +kernel
  have separated' : MerkleTree.Separates Digest.sha256 m.blocks n.blocks := by
    rw [blocks]
    refine MerkleTree.separates_singleton ?_
    unfold register
    decide +kernel
  have root : m.summary.root = n.summary.root :=
    congrArg (fun blocks => (MerkleTree.build Digest.sha256 blocks).root.hex) blocks.symm
  refine ⟨⟨separated, fun same => ?_⟩, separated', root, ?_, ?_⟩
  · exact absurd (root_identifies_blocks.1 checksum _ _ (by decide) (by decide) separated same)
      (by decide)
  · exact root_identifies_blocks.1 Digest.sha256 m.blocks n.blocks m.nodup_blocks n.nodup_blocks
      separated' (Digest.hex_inj root)
  · exact root_identifies_blocks.2 m n separated' root

end ThreatGossip
