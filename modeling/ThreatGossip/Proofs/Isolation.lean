import ThreatGossip.Proofs.Views
/-!
The peers of a round do not notice each other. The exchanges of a round share the node, its roster
and the network, and their steps may come in any order. Still, what becomes of one peer's entry and
of that peer's own node depends on nothing that happens at other addresses: each step of another
exchange leaves alone what this one reads, and so the round ends, for this peer, as if its exchange
had been the only one.
-/
namespace ThreatGossip.Network

open Relation (ReflTransGen)

variable {net net₁ net₂ : Network} {me peer : NodeId} {address : String}

/-- How far the exchange of a round with one of the peers has come. -/
inductive Stage
  | drawn (p : Peer)
  | sent (f : Flight)
  | answered (f : Flight) (outcome : Except ExchangeError Acknowledgment)

/-- A round under way: the network, and the exchanges that are not over yet. -/
structure Underway where
  net : Network
  stage : NodeId → Option Stage

open Function (update)

/-- One exchange of a round goes one step on: its delta is built and sent off, the delta arrives or
does not, or the outcome is booked. -/
inductive Advance (me : NodeId) (policy : Policy) (s : Underway) : Underway → Prop
  | send {q : NodeId} {p : Peer} {n : Node} {m : Message} (time : Nat) :
      s.stage q = some (.drawn p) → s.net.node? me = some n →
      n.deltaMessage p.id s.net.now = .ok m →
      Advance me policy s { s with
        stage := update s.stage q
          (some (.sent (s.net.depart n.id p.id p.address .push m policy.timeout time))) }
  | unsent {q : NodeId} {p : Peer} {n : Node} {e : PeerError} :
      s.stage q = some (.drawn p) → s.net.node? me = some n →
      n.deltaMessage p.id s.net.now = .error e →
      Advance me policy s { s with stage := update s.stage q none }
  | arrive {q : NodeId} {f : Flight} : s.stage q = some (.sent f) →
      Advance me policy s
        ⟨(s.net.arrival f).1, update s.stage q (some (.answered f (s.net.arrival f).2))⟩
  | book {q : NodeId} {f : Flight} {outcome : Except ExchangeError Acknowledgment} :
      s.stage q = some (.answered f outcome) →
      Advance me policy s ⟨s.net.book f outcome, update s.stage q none⟩

/-- A round begins with the selection; the peers that are drawn are to be sent their deltas. -/
def opening (net : Network) (n : Node) (policy : Policy) (draws : List Nat) : Underway where
  net := net.setNode (n.select policy draws net.now).1
  stage q := ((n.select policy draws net.now).2.find? (·.id = q)).map .drawn

/-- The network after a round whose exchanges have all ended, in whatever order their steps came. -/
def Interleaves (net : Network) (n : Node) (policy : Policy) (draws : List Nat) (net' : Network) :
    Prop :=
  ∃ s, ReflTransGen (Advance n.id policy) (net.opening n policy draws) s ∧
    (∀ q, s.stage q = none) ∧ s.net = net'

/-- The network once the exchange with one peer has gone all the rest of its way by itself. -/
def finish (me : NodeId) (policy : Policy) (net : Network) : Option Stage → Network
  | none => net
  | some (.drawn p) => (net.node? me).elim net fun n => (net.syncWith n p policy).1
  | some (.sent f) => (net.land f).1
  | some (.answered f outcome) => net.book f outcome

/-- A stage of the exchange with a peer. -/
inductive Stage.Of (me q : NodeId) : Stage → Prop
  | drawn {p : Peer} : p.id = q → Of me q (.drawn p)
  | sent {f : Flight} : f.Pushes me q → Of me q (.sent f)
  | answered {f : Flight} {outcome : Except ExchangeError Acknowledgment} :
      f.Pushes me q → Of me q (.answered f outcome)

section Selections

variable {n : Node} {policy : Policy} {draws : List Nat} {now : Millis} {p : Peer}

theorem get?_of_mem_select (own : n.peers.Every fun id p => p.id = id)
    (drawn : p ∈ (n.select policy draws now).2) :
    (n.peers.refreshAll now).get? p.id = some p :=
  (Roster.mem_list_iff (own.refreshAll fun _ _ same => same)).mp
    (List.mem_filter.mp (mem_of_mem_draw drawn)).1

/-- A peer that is drawn is found under its name. -/
theorem find?_drawn (own : n.peers.Every fun id p => p.id = id)
    (drawn : p ∈ (n.select policy draws now).2) :
    (n.select policy draws now).2.find? (·.id = p.id) = some p := by
  cases found : (n.select policy draws now).2.find? (·.id = p.id) with
  | none => exact absurd (decide_eq_true rfl) (List.find?_eq_none.mp found p drawn)
  | some q =>
      have name : q.id = p.id := by simpa using List.find?_some found
      have known := get?_of_mem_select own (List.mem_of_find?_eq_some found)
      rw [name, get?_of_mem_select own drawn] at known
      rw [Option.some.inj known]

/-- With enough draws a peer is selected just when it is selectable. -/
theorem find?_select (own : n.peers.Every fun id p => p.id = id)
    (known : n.peers.get? peer = some p)
    (enough : (n.peers.refreshAll now).selectable.length ≤ policy.fanout) :
    (n.select policy draws now).2.find? (·.id = peer) =
      if (p.refresh now).standing.selectable then some (p.refresh now) else none := by
  have refreshed : (n.peers.refreshAll now).get? peer = some (p.refresh now) := by
    rw [Roster.get?_refreshAll, known]
    rfl
  obtain rfl : (p.refresh now).id = peer := own peer p known
  split
  next selectable =>
    exact find?_drawn own
      (mem_draw enough (List.mem_filter.mpr ⟨Roster.mem_list_of_get? refreshed, selectable⟩))
  next passed =>
    refine List.find?_eq_none.mpr fun q drawn name => passed ?_
    have here := get?_of_mem_select own drawn
    rw [of_decide_eq_true name, refreshed] at here
    obtain rfl := Option.some.inj here
    exact (List.mem_filter.mp (mem_of_mem_draw drawn)).2

end Selections

/-- What all steps of a round keep. -/
structure Underway.Sound (me : NodeId) (s : Underway) : Prop where
  named : s.net.Named
  stages : ∀ q st, s.stage q = some st → st.Of me q ∧ q ≠ ""

variable {n : Node} {policy : Policy} {s t : Underway} {st : Stage}

theorem pushes_depart {q : NodeId} {m : Message} (own : n.id = me)
    (built : n.deltaMessage q net.now = .ok m) (address : String) (timeout time : Nat) :
    (net.depart n.id q address .push m timeout time).Pushes me q := by
  obtain ⟨since, -, rfl⟩ := Fleet.deltaMessage_spec built
  exact ⟨own, rfl, rfl, own, rfl⟩

/-- A flight fares alike whenever it is sent off. -/
theorem land_depart {initiator q : NodeId} {purpose : Purpose} {m : Message} {timeout : Nat}
    (time : Nat) : (net.land (net.depart initiator q address purpose m timeout time)).1 =
      (net.land (net.depart initiator q address purpose m timeout 0)).1 := by
  rw [land_eq, land_eq]
  unfold depart arrival
  cases net.endpoint? address with
  | none => rfl
  | some e => by_cases fast : e.delay ≤ timeout <;> simp only [fast, if_true, if_false]

theorem syncWith_built {p : Peer} {m : Message} (built : n.deltaMessage p.id net.now = .ok m) :
    net.syncWith n p policy =
      net.land (net.depart n.id p.id p.address .push m policy.timeout 0) := by
  unfold syncWith
  rw [built]
  rfl

theorem syncWith_unbuilt {p : Peer} {e : PeerError}
    (unbuilt : n.deltaMessage p.id net.now = .error e) : (net.syncWith n p policy).1 = net := by
  unfold syncWith
  rw [unbuilt]

theorem Underway.Sound.update (h : s.Sound me) {q : NodeId} {stage : Option Stage}
    (valid : ∀ st, stage = some st → st.Of me q ∧ q ≠ "") :
    ∀ k st, Function.update s.stage q stage k = some st → st.Of me k ∧ k ≠ "" := by
  intro k st found
  by_cases same : k = q
  · subst same
    rw [Function.update_self] at found
    exact valid st found
  · rw [Function.update_of_ne same] at found
    exact h.stages k st found

theorem Underway.Sound.advance (h : s.Sound me) (step : Advance me policy s t) : t.Sound me := by
  cases step with
  | @send q p n m time drawn here built =>
      obtain ⟨of, named⟩ := h.stages q _ drawn
      cases of with
      | drawn own =>
          refine ⟨h.named, h.update ?_⟩
          rintro st ⟨⟩
          exact ⟨.sent (own ▸ pushes_depart (h.named me n here) built _ _ _), named⟩
  | unsent =>
      refine ⟨h.named, h.update ?_⟩
      rintro st ⟨⟩
  | @arrive q f sent =>
      obtain ⟨of, named⟩ := h.stages q _ sent
      cases of with
      | sent pushes =>
          refine ⟨h.named.arrival f, h.update ?_⟩
          rintro st ⟨⟩
          exact ⟨.answered pushes, named⟩
  | @book q f outcome answered =>
      refine ⟨h.named.book f outcome, h.update ?_⟩
      rintro st ⟨⟩

theorem deltaMessage_congr {n₁ n₂ : Node} {q : NodeId} (own : n₁.id = n₂.id)
    (content : n₁.snapshot = n₂.snapshot) (entry : n₁.peers.get? q = n₂.peers.get? q)
    (now : Millis) : n₁.deltaMessage q now = n₂.deltaMessage q now := by
  have threats : n₁.threats = n₂.threats := congrArg Snapshot.threats content
  have rules : n₁.rules = n₂.rules := congrArg Snapshot.rules content
  have metrics : n₁.metrics = n₂.metrics := congrArg Snapshot.metrics content
  unfold Node.deltaMessage Roster.version? Node.messageTo Node.version
  rw [own, threats, rules, metrics, entry]

/-- From networks that look alike to the peer its exchange comes to the same end. -/
theorem finish_congr (named₁ : net₁.Named) (named₂ : net₂.Named)
    (same : net₁.view me peer address = net₂.view me peer address) (apart : peer ≠ me)
    {stage : Option Stage} (valid : ∀ st, stage = some st → st.Of me peer ∧ peer ≠ "")
    (place : ∀ p, stage = some (.drawn p) → p.address = address) :
    (finish me policy net₁ stage).view me peer address =
      (finish me policy net₂ stage).view me peer address := by
  cases stage with
  | none => exact same
  | some st =>
      obtain ⟨of, addressed⟩ := valid st rfl
      cases of with
      | sent pushes => exact land_congr named₁ named₂ same apart pushes addressed
      | answered pushes => exact book_congr named₁ named₂ same apart pushes rfl
      | @drawn p own =>
          have initiators : (net₁.node? me).map (fun n => (n.snapshot, n.peers.get? peer)) =
              (net₂.node? me).map fun n => (n.snapshot, n.peers.get? peer) :=
            congrArg View.initiator same
          have now : net₁.now = net₂.now := congrArg View.now same
          have endpoint : net₁.endpoint? p.address = net₂.endpoint? p.address := by
            rw [place p rfl]
            exact congrArg View.endpoint same
          simp only [finish]
          cases here₁ : net₁.node? me with
          | none =>
              rw [here₁] at initiators
              have here₂ := Option.map_eq_none_iff.mp initiators.symm
              rw [here₂]
              exact same
          | some n₁ =>
              rw [here₁] at initiators
              obtain ⟨n₂, here₂, parts⟩ := Option.map_eq_some_iff.mp initiators.symm
              obtain ⟨content, entry⟩ := Prod.mk.inj parts
              have name₁ := named₁ me n₁ here₁
              have name₂ := named₂ me n₂ here₂
              have messages := deltaMessage_congr (name₂.trans name₁.symm) content
                (own ▸ entry : n₂.peers.get? p.id = n₁.peers.get? p.id) net₁.now
              rw [here₂, Option.elim_some, Option.elim_some]
              cases built : n₁.deltaMessage p.id net₁.now with
              | error e =>
                  rw [syncWith_unbuilt built, syncWith_unbuilt (now ▸ messages.trans built)]
                  exact same
              | ok m =>
                  have pushes := pushes_depart name₁ built p.address policy.timeout 0
                  have flights : net₂.depart n₂.id p.id p.address .push m policy.timeout 0 =
                      net₁.depart n₁.id p.id p.address .push m policy.timeout 0 := by
                    unfold depart
                    rw [endpoint, name₁, name₂]
                  rw [syncWith_built built, syncWith_built (now ▸ messages.trans built), flights]
                  exact land_congr named₁ named₂ same apart (own ▸ pushes) addressed

/-- A step of one exchange does not change what another peer's exchange comes to, and a step of its
own is on the way there. -/
theorem Advance.view_finish (step : Advance me policy s t) (sound : s.Sound me) (apart : peer ≠ me)
    (place : ∀ p, s.stage peer = some (.drawn p) → p.address = address) :
    (finish me policy t.net (t.stage peer)).view me peer address =
      (finish me policy s.net (s.stage peer)).view me peer address := by
  have after := sound.advance step
  have aside {q : NodeId} {stage : Option Stage} (other : q ≠ peer)
      (untouched : update s.stage q stage peer = t.stage peer)
      (unseen : t.net.view me peer address = s.net.view me peer address) :
      (finish me policy t.net (t.stage peer)).view me peer address =
        (finish me policy s.net (s.stage peer)).view me peer address := by
    rw [← untouched, Function.update_of_ne (Ne.symm other)]
    exact finish_congr after.named sound.named unseen apart (sound.stages peer) place
  cases step with
  | @send q p n m time drawn here built =>
      by_cases own : q = peer
      · subst own
        simp only [Function.update_self, drawn, finish, here, Option.elim_some,
          syncWith_built built, land_depart time]
      · exact aside own rfl rfl
  | @unsent q p n e drawn here unbuilt =>
      by_cases own : q = peer
      · subst own
        simp only [Function.update_self, drawn, finish, here, Option.elim_some,
          syncWith_unbuilt unbuilt]
      · exact aside own rfl rfl
  | @arrive q f sent =>
      by_cases own : q = peer
      · subst own
        simp only [Function.update_self, sent, finish, land_eq_book]
      · obtain ⟨of, addressed⟩ := sound.stages q _ sent
        cases of with
        | sent pushes => exact aside own rfl (view_arrival_other pushes addressed own)
  | @book q f outcome answered =>
      by_cases own : q = peer
      · subst own
        simp only [Function.update_self, answered, finish]
      · obtain ⟨of, -⟩ := sound.stages q _ answered
        cases of with
        | answered pushes => exact aside own rfl (view_book_other sound.named pushes apart own)

/-- No step draws a peer. -/
theorem Advance.drawn_of_drawn (step : Advance me policy s t) {q : NodeId} {p : Peer}
    (drawn : t.stage q = some (.drawn p)) : s.stage q = some (.drawn p) := by
  have other {k : NodeId} {stage : Option Stage} (past : stage ≠ some (.drawn p))
      (here : update s.stage k stage q = some (.drawn p)) : s.stage q = some (.drawn p) := by
    by_cases same : q = k
    · subst same
      rw [Function.update_self] at here
      exact absurd here past
    · rwa [Function.update_of_ne same] at here
  cases step with
  | send | unsent | arrive | book =>
      refine other ?_ drawn
      rintro ⟨⟩

/-- A node is there and has an entry for a peer. -/
def Lists (net : Network) (me peer : NodeId) : Prop :=
  ∃ n p, net.node? me = some n ∧ n.peers.get? peer = some p

theorem Advance.lists (step : Advance me policy s t) (sound : s.Sound me)
    (h : s.net.Lists me peer) : t.net.Lists me peer := by
  obtain ⟨n, p, here, known⟩ := h
  cases step with
  | send | unsent => exact ⟨n, p, here, known⟩
  | @arrive q f sent =>
      obtain ⟨of, -⟩ := sound.stages q _ sent
      cases of with
      | sent pushes => exact ⟨n, p, (node?_arrival pushes.sender).trans here, known⟩
  | @book q f outcome answered =>
      obtain ⟨of, -⟩ := sound.stages q _ answered
      cases of with
      | answered pushes =>
          obtain ⟨p', entry⟩ :
              ∃ p', (n.conclude .push q s.net.now outcome).1.peers.get? peer = some p' := by
            rw [Node.get?_conclude_push, known]
            split <;> exact ⟨_, rfl⟩
          exact ⟨_, p', node?_book (sound.named me n here) pushes here, entry⟩

/-- A complete round ends, for each peer, where its exchange would have ended by itself. -/
theorem view_of_run (run : ReflTransGen (Advance me policy) s t) (sound : s.Sound me)
    (apart : peer ≠ me) (place : ∀ p, s.stage peer = some (.drawn p) → p.address = address)
    (ended : t.stage peer = none) :
    t.net.view me peer address = (finish me policy s.net (s.stage peer)).view me peer address := by
  induction run using ReflTransGen.head_induction_on with
  | refl =>
      rw [ended]
      rfl
  | @head s mid step _ ih =>
      have place' : ∀ p, mid.stage peer = some (.drawn p) → p.address = address :=
        fun p drawn => place p (step.drawn_of_drawn drawn)
      rw [ih (sound.advance step) place']
      exact step.view_finish sound apart place

theorem lists_of_run (run : ReflTransGen (Advance me policy) s t) (sound : s.Sound me)
    (h : s.net.Lists me peer) : t.net.Lists me peer := by
  induction run using ReflTransGen.head_induction_on with
  | refl => exact h
  | head step _ ih => exact ih (sound.advance step) (step.lists sound h)

section Openings

variable {draws : List Nat} {p : Peer} {net' : Network}

theorem mem_opening {q : NodeId} (opened : (net.opening n policy draws).stage q = some st) :
    ∃ p, st = .drawn p ∧ p ∈ (n.select policy draws net.now).2 ∧ p.id = q := by
  obtain ⟨p, found, rfl⟩ := Option.map_eq_some_iff.mp opened
  exact ⟨p, rfl, List.mem_of_find?_eq_some found, by simpa using List.find?_some found⟩

theorem sound_opening (named : net.Named) (sound : n.peers.Every (Peer.Sound n.id)) :
    (net.opening n policy draws).Sound n.id := by
  refine ⟨named.setNode _, fun q st opened => ?_⟩
  obtain ⟨p, rfl, drawn, name⟩ := mem_opening opened
  have known := get?_of_mem_select (fun id p known => (sound id p known).own) drawn
  rw [Roster.get?_refreshAll] at known
  obtain ⟨old, known, -⟩ := Option.map_eq_some_iff.mp known
  exact ⟨.drawn name, name ▸ (sound p.id old known).named⟩

theorem stage_opening (own : n.peers.Every fun id p => p.id = id)
    (drawn : p ∈ (n.select policy draws net.now).2) :
    (net.opening n policy draws).stage p.id = some (.drawn p) :=
  congrArg (Option.map Stage.drawn) (find?_drawn own drawn)

theorem stage_opening_none {q : NodeId}
    (idle : q ∉ (n.select policy draws net.now).2.map (·.id)) :
    (net.opening n policy draws).stage q = none := by
  cases opened : (net.opening n policy draws).stage q with
  | none => rfl
  | some st =>
      obtain ⟨p, -, member, rfl⟩ := mem_opening opened
      exact absurd (List.mem_map_of_mem member) idle

/-- The deltas that a node can build for a list of peers, sent off together. -/
def departures (net : Network) (n : Node) (policy : Policy) (peers : List Peer) : List Flight :=
  peers.filterMap fun p =>
    match n.deltaMessage p.id net.now with
    | .ok m => some (net.depart n.id p.id p.address .push m policy.timeout 0)
    | .error _ => none

theorem departures_cons_built {m : Message} {peers : List Peer}
    (built : n.deltaMessage p.id net.now = .ok m) :
    net.departures n policy (p :: peers) =
      net.depart n.id p.id p.address .push m policy.timeout 0 :: net.departures n policy peers :=
  List.filterMap_cons_some (by rw [built])

theorem departures_cons_unbuilt {e : PeerError} {peers : List Peer}
    (unbuilt : n.deltaMessage p.id net.now = .error e) :
    net.departures n policy (p :: peers) = net.departures n policy peers :=
  List.filterMap_cons_none (by rw [unbuilt])

/-- The deltas of a round can all be sent off before the first of them arrives. -/
theorem sends (peers : List Peer) (here : s.net.node? me = some n)
    (distinct : (peers.map (·.id)).Nodup)
    (drawn : ∀ p ∈ peers, s.stage p.id = some (.drawn p)) :
    ∃ stage, ReflTransGen (Advance me policy) s { s with stage } ∧
      ((s.net.departures n policy peers).map Flight.peer).Sublist (peers.map (·.id)) ∧
      (∀ f ∈ s.net.departures n policy peers, stage f.peer = some (.sent f)) ∧
      (∀ q ∉ peers.map (·.id), stage q = s.stage q) ∧
      ∀ q ∈ peers.map (·.id), q ∉ (s.net.departures n policy peers).map Flight.peer →
        stage q = none := by
  induction peers generalizing s with
  | nil =>
      exact ⟨s.stage, .refl, .slnil, List.forall_mem_nil _, fun _ _ => rfl,
        fun _ member => nomatch member⟩
  | cons p peers ih =>
      obtain ⟨fresh, distinct⟩ := List.nodup_cons.mp distinct
      obtain ⟨first, others⟩ := List.forall_mem_cons.mp drawn
      have later (stage : Option Stage) :
          ∀ r ∈ peers, update s.stage p.id stage r.id = some (.drawn r) := by
        intro r member
        have other : r.id ≠ p.id := fun same => fresh (List.mem_map.mpr ⟨r, member, same⟩)
        rw [Function.update_of_ne other]
        exact others r member
      have outside {stage : NodeId → Option Stage} {x : Option Stage}
          (kept : ∀ q ∉ peers.map (·.id), stage q = update s.stage p.id x q) :
          ∀ q ∉ (p :: peers).map (·.id), stage q = s.stage q := by
        intro q past
        obtain ⟨other, past⟩ := not_or.mp (mt List.mem_cons.mpr past)
        rw [kept q past, Function.update_of_ne other]
      cases built : n.deltaMessage p.id s.net.now with
      | ok m =>
        have step : Advance me policy s _ := .send 0 first here built
        obtain ⟨stage, run, sub, sent, kept, ended⟩ :=
          ih (s := ⟨s.net, update s.stage p.id (some (.sent (s.net.depart n.id p.id p.address .push
            m policy.timeout 0)))⟩) here distinct (later _)
        rw [departures_cons_built built]
        refine ⟨stage, run.head step, sub.cons_cons _, List.forall_mem_cons.mpr ⟨?_, sent⟩,
          outside kept, fun q member past => ?_⟩
        · exact (kept p.id fresh).trans (Function.update_self ..)
        · obtain ⟨other, past⟩ := not_or.mp (mt List.mem_cons.mpr past)
          exact ended q ((List.mem_cons.mp member).resolve_left other) past
      | error e =>
        have step : Advance me policy s _ := .unsent first here built
        obtain ⟨stage, run, sub, sent, kept, ended⟩ :=
          ih (s := ⟨s.net, update s.stage p.id none⟩) here distinct (later _)
        rw [departures_cons_unbuilt built]
        refine ⟨stage, run.head step, sub.cons _, sent, outside kept, fun q member past => ?_⟩
        rcases List.mem_cons.mp member with rfl | member
        · exact (kept p.id fresh).trans (Function.update_self ..)
        · exact ended q member past

/-- A flight under way can arrive and be booked at once. -/
theorem lands {q : NodeId} {f : Flight} (sent : s.stage q = some (.sent f)) :
    ReflTransGen (Advance me policy) s ⟨(s.net.land f).1, update s.stage q none⟩ := by
  have books : Advance me policy
      ⟨(s.net.arrival f).1, update s.stage q (some (.answered f (s.net.arrival f).2))⟩
      ⟨(s.net.arrival f).1.book f (s.net.arrival f).2,
        update (update s.stage q (some (.answered f (s.net.arrival f).2))) q none⟩ :=
    .book (Function.update_self ..)
  rw [Function.update_idem, ← land_eq_book] at books
  exact (ReflTransGen.single (.arrive sent)).tail books

/-- Flights that are under way can land one after the other. -/
theorem landings (flights : List Flight) (distinct : (flights.map Flight.peer).Nodup)
    (sent : ∀ f ∈ flights, s.stage f.peer = some (.sent f)) :
    ∃ stage, ReflTransGen (Advance me policy) s
        ⟨flights.foldl (fun net f => (net.land f).1) s.net, stage⟩ ∧
      (∀ q ∉ flights.map Flight.peer, stage q = s.stage q) ∧
      ∀ q ∈ flights.map Flight.peer, stage q = none := by
  induction flights generalizing s with
  | nil => exact ⟨s.stage, .refl, fun _ _ => rfl, fun _ member => nomatch member⟩
  | cons f flights ih =>
      obtain ⟨fresh, distinct⟩ := List.nodup_cons.mp distinct
      obtain ⟨first, others⟩ := List.forall_mem_cons.mp sent
      obtain ⟨stage, rest, kept, ended⟩ :=
        ih (s := ⟨(s.net.land f).1, update s.stage f.peer none⟩) distinct fun g later => by
          have other : g.peer ≠ f.peer := fun same => fresh (List.mem_map.mpr ⟨g, later, same⟩)
          exact (Function.update_of_ne other ..).trans (others g later)
      refine ⟨stage, (lands first).trans rest, fun q past => ?_, fun q member => ?_⟩
      · obtain ⟨other, past⟩ := not_or.mp (mt List.mem_cons.mpr past)
        exact (kept q past).trans (Function.update_of_ne other ..)
      · rcases List.mem_cons.mp member with rfl | later
        · exact (kept _ fresh).trans (Function.update_self ..)
        · exact ended q later

/-- A round of the program is one of the ways in which its exchanges may interleave. -/
theorem round_interleaves (own : n.peers.Every fun id p => p.id = id) :
    net.Interleaves n policy draws (net.round n policy draws none).1 := by
  have kept : (n.peers.refreshAll net.now).Every fun id p => p.id = id :=
    own.refreshAll fun _ _ same => same
  have distinct : ((n.select policy draws net.now).2.map (·.id)).Nodup :=
    nodup_draw (Roster.nodup_ids kept _)
  have here : (net.opening n policy draws).net.node? n.id =
      some (n.select policy draws net.now).1 := (node?_setNode ..).trans (if_pos rfl)
  obtain ⟨stage, sending, sub, sent, kept, ended⟩ :=
    sends _ here distinct fun p => stage_opening own
  have perm := List.mergeSort_perm (net.startRound n policy draws 0).2 (fun a b => a.due ≤ b.due)
  obtain ⟨stage', landing, kept', ended'⟩ :=
    landings (s := ⟨(net.opening n policy draws).net, stage⟩) _
      ((perm.map _).nodup_iff.mpr (sub.nodup distinct))
      fun f member => sent f (perm.mem_iff.mp member)
  refine ⟨_, sending.trans landing, fun q => ?_, round_eq.symm⟩
  by_cases flew : q ∈ ((net.startRound n policy draws 0).2.mergeSort
      fun a b => a.due ≤ b.due).map Flight.peer
  · exact ended' q flew
  · have past : q ∉ (net.startRound n policy draws 0).2.map Flight.peer :=
      mt (perm.map _).mem_iff.mpr flew
    refine (kept' q flew).trans ?_
    by_cases member : q ∈ (n.select policy draws net.now).2.map (·.id)
    · exact ended q member past
    · exact (kept q member).trans (stage_opening_none member)

/-- An opened round looks alike to a peer in networks that do. -/
theorem view_opening {draws₁ draws₂ : List Nat} (apart : peer ≠ n.id) (now : net₁.now = net₂.now)
    (endpoint : net₁.endpoint? address = net₂.endpoint? address)
    (same : net₁.node? peer = net₂.node? peer) :
    (net₁.opening n policy draws₁).net.view n.id peer address =
      (net₂.opening n policy draws₂).net.view n.id peer address := by
  have opens (net : Network) (draws : List Nat) :
      (net.opening n policy draws).net.view n.id peer address =
        ⟨net.now, net.endpoint? address, net.node? peer,
          some (n.snapshot, (n.peers.refreshAll net.now).get? peer)⟩ :=
    view_setNode_me (n := (n.select policy draws net.now).1) rfl apart
  rw [opens, opens, now, endpoint, same]

/-- Where the exchange with a peer stands when a round with enough draws begins. -/
def outset (p : Peer) (now : Millis) : Option Stage :=
  if (p.refresh now).standing.selectable then some (.drawn (p.refresh now)) else none

theorem eq_drawn_of_outset {now : Millis} (set : outset p now = some st) :
    st = .drawn (p.refresh now) := by
  unfold outset at set
  split at set
  · exact (Option.some.inj set).symm
  · contradiction

theorem stage_opening_of_enough (own : n.peers.Every fun id p => p.id = id)
    (known : n.peers.get? peer = some p)
    (enough : (n.peers.refreshAll net.now).selectable.length ≤ policy.fanout) :
    (net.opening n policy draws).stage peer = outset p net.now := by
  refine (congrArg (Option.map Stage.drawn) (find?_select own known enough)).trans ?_
  unfold outset
  split <;> rfl

theorem address_of_outset {now : Millis} {q : Peer} (set : outset p now = some (.drawn q)) :
    q.address = p.address := by
  cases eq_drawn_of_outset set
  rfl

/-- What a complete round comes to for a peer: its own exchange, if it is to have one, has gone all
the way. -/
theorem Interleaves.view_eq (h : net.Interleaves n policy draws net') (named : net.Named)
    (sound : n.peers.Every (Peer.Sound n.id)) (known : n.peers.get? peer = some p)
    (enough : (n.peers.refreshAll net.now).selectable.length ≤ policy.fanout) :
    net'.view n.id peer p.address =
      (finish n.id policy (net.opening n policy draws).net (outset p net.now)).view n.id peer
        p.address := by
  obtain ⟨s, run, ended, rfl⟩ := h
  have opened : (net.opening n policy draws).stage peer = outset p net.now :=
    stage_opening_of_enough (fun id p known => (sound id p known).own) known enough
  rw [view_of_run run (sound_opening named sound) (sound peer p known).foreign
    (fun _ drawn => address_of_outset (opened ▸ drawn)) (ended peer), opened]

theorem Interleaves.lists (h : net.Interleaves n policy draws net') (named : net.Named)
    (sound : n.peers.Every (Peer.Sound n.id)) (known : n.peers.get? peer = some p) :
    net'.Lists n.id peer := by
  obtain ⟨s, run, -, rfl⟩ := h
  refine lists_of_run run (sound_opening named sound)
    ⟨(n.select policy draws net.now).1, p.refresh net.now,
      (node?_setNode ..).trans (if_pos rfl), ?_⟩
  exact (Roster.get?_refreshAll ..).trans (congrArg _ known)

end Openings

/-- Two networks that show a peer's exchange the same: the time, the endpoint at its address and the
peer's own node. Anything else may differ. -/
structure AlikeAt (peer : NodeId) (address : String) (net₁ net₂ : Network) : Prop where
  now : net₁.now = net₂.now
  endpoint : net₁.endpoint? address = net₂.endpoint? address
  peer : net₁.node? peer = net₂.node? peer

/-- What a round makes of a peer's entry and of the peer's own node rests on the peer's address
alone: whatever other addresses do, in whichever order the exchanges go on and end, it is the same.
-/
theorem round_isolates_peers {p : Peer} {ops : List Operation}
    (reached : n.peers = (Roster.empty n.id).after ops) (known : n.peers.get? peer = some p)
    (enough : (n.peers.refreshAll net₁.now).selectable.length ≤ policy.fanout)
    (named₁ : net₁.Named) (named₂ : net₂.Named) (alike : AlikeAt peer p.address net₁ net₂) :
    (∀ (net : Network) (draws : List Nat),
      net.Interleaves n policy draws (net.round n policy draws none).1) ∧
    ∀ (draws₁ draws₂ : List Nat) (end₁ end₂ : Network),
      net₁.Interleaves n policy draws₁ end₁ → net₂.Interleaves n policy draws₂ end₂ →
      (∃ n₁ n₂ entry, end₁.node? n.id = some n₁ ∧ end₂.node? n.id = some n₂ ∧
        n₁.peers.get? peer = some entry ∧ n₂.peers.get? peer = some entry) ∧
      end₁.node? peer = end₂.node? peer := by
  have sound : n.peers.Every (Peer.Sound n.id) := reached ▸ Roster.sound_after n.id ops
  have own : n.peers.Every fun id p => p.id = id := fun id p known => (sound id p known).own
  obtain ⟨name, apart, addressed, -, -⟩ := sound peer p known
  refine ⟨fun net draws => round_interleaves own, ?_⟩
  intro draws₁ draws₂ end₁ end₂ run₁ run₂
  have opened : (net₁.opening n policy draws₁).net.view n.id peer p.address =
      (net₂.opening n policy draws₂).net.view n.id peer p.address :=
    view_opening apart alike.now alike.endpoint alike.peer
  have views : end₁.view n.id peer p.address = end₂.view n.id peer p.address := by
    rw [run₁.view_eq named₁ sound known enough,
      run₂.view_eq named₂ sound known (alike.now ▸ enough), ← alike.now]
    refine finish_congr (named₁.setNode _) (named₂.setNode _) opened apart (fun st set => ?_)
      fun q set => address_of_outset set
    rw [eq_drawn_of_outset set]
    exact ⟨.drawn name, addressed⟩
  obtain ⟨n₁, entry, here₁, known₁⟩ := run₁.lists named₁ sound known
  obtain ⟨n₂, entry₂, here₂, known₂⟩ := run₂.lists named₂ sound known
  have entries : (n₁.snapshot, some entry) = (n₂.snapshot, some entry₂) := by
    have initiators := congrArg View.initiator views
    dsimp only [view] at initiators
    rw [here₁, here₂] at initiators
    simpa only [Option.map_some, known₁, known₂, Option.some.injEq] using initiators
  obtain rfl := Option.some.inj (Prod.mk.inj entries).2
  exact ⟨⟨n₁, n₂, entry, here₁, here₂, known₁, known₂⟩, congrArg View.peer views⟩

/-- A node with two peers. -/
def hub : Node :=
  { Node.empty "a" with
    peers := (Roster.empty "a").after
      [.register ⟨"b", "b:1", [], none⟩ 0, .register ⟨"c", "c:1", [], none⟩ 0] }

/-- A network in which one of the peers cannot be reached. -/
def deserted : Network :=
  (((empty 10).setNode hub).setNode (Node.empty "b")).listen "b:1" (.node "b")

/-- The same network with somebody at the address of that peer who claims more than there is. -/
def pretended : Network :=
  deserted.listen "c:1" (.fixed (.synced (.ofList [("c", 9)]) none))

/-- Whether the one peer cannot be reached or pretends, the round makes the same of the other. -/
theorem hub_isolates_peers : ¬AlikeAt "c" "c:1" deserted pretended ∧
    (∃ n₁ n₂ entry, (deserted.round hub ⟨1, 2, 100, none⟩ [] none).1.node? "a" = some n₁ ∧
      (pretended.round hub ⟨1, 2, 100, none⟩ [1] none).1.node? "a" = some n₂ ∧
      n₁.peers.get? "b" = some entry ∧ n₂.peers.get? "b" = some entry) ∧
    (deserted.round hub ⟨1, 2, 100, none⟩ [] none).1.node? "b" =
      (pretended.round hub ⟨1, 2, 100, none⟩ [1] none).1.node? "b" := by
  have named : deserted.Named := by
    have nobody : (empty 10).Named := fun _ _ found => nomatch found
    exact (nobody.setNode hub).setNode (Node.empty "b")
  have named' : pretended.Named := named
  have enough : (hub.peers.refreshAll deserted.now).selectable.length ≤
      (⟨1, 2, 100, none⟩ : Policy).fanout := List.length_filter_le ..
  obtain ⟨p, known, address⟩ : ∃ p, hub.peers.get? "b" = some p ∧ p.address = "b:1" :=
    ⟨_, rfl, rfl⟩
  have alike : AlikeAt "b" p.address deserted pretended := address ▸ ⟨rfl, rfl, rfl⟩
  obtain ⟨complete, isolated⟩ :=
    round_isolates_peers (n := hub) rfl known enough named named' alike
  refine ⟨fun same => ?_, isolated [] [1] _ _ (complete ..) (complete ..)⟩
  have endpoints := same.endpoint
  contradiction

end ThreatGossip.Network
