import ThreatGossip.Proofs.Courses
/-!
Rounds as parts of a course. A flight that lands is one that arrives, or does not, and is concluded;
a round is a selection, some departures and their landings. No round changes where anybody is found,
and none changes the trust that other nodes have. A peer that is drawn and reached ends up with all
that the node had when its round began.
-/
namespace ThreatGossip

open Relation (ReflTransGen)

/-- What is drawn and what is left make up the list; enough draws leave nothing. -/
theorem draw_perm {α : Type} (n : Nat) (draws : List Nat) (as : List α) :
    ∃ rest, (draw n draws as ++ rest).Perm as ∧ (as.length ≤ n → rest = []) := by
  induction n generalizing draws as with
  | zero => exact ⟨as, .refl _, fun enough => List.eq_nil_of_length_eq_zero (by omega)⟩
  | succ n ih =>
      simp only [draw]
      split
      next a drawn =>
        obtain ⟨inside, rfl⟩ := List.getElem?_eq_some_iff.mp drawn
        obtain ⟨rest, perm, all⟩ := ih draws.tail (as.eraseIdx (draws.headD 0 % as.length))
        refine ⟨rest, ?_, fun enough => all ?_⟩
        · exact (perm.cons _).trans (List.getElem_cons_eraseIdx_perm inside)
        · rw [List.length_eraseIdx_of_lt inside]
          omega
      next outside =>
        have none_left : as = [] := by
          by_contra some_left
          have inside := Nat.mod_lt (draws.headD 0) (List.length_pos_iff.mpr some_left)
          have beyond := List.getElem?_eq_none_iff.mp outside
          omega
        subst none_left
        exact ⟨[], .refl _, fun _ => rfl⟩

section Draws

variable {α : Type} {a : α} {n : Nat} {draws : List Nat} {as : List α}

/-- Enough draws take all of a list. -/
theorem mem_draw (enough : as.length ≤ n) (member : a ∈ as) : a ∈ draw n draws as := by
  obtain ⟨rest, perm, all⟩ := draw_perm n draws as
  rw [all enough, List.append_nil] at perm
  exact perm.mem_iff.mpr member

/-- What is drawn is of the list. -/
theorem mem_of_mem_draw (drawn : a ∈ draw n draws as) : a ∈ as := by
  obtain ⟨rest, perm, -⟩ := draw_perm n draws as
  exact perm.subset (List.mem_append_left rest drawn)

theorem nodup_draw {β : Type} {g : α → β} (distinct : (as.map g).Nodup) :
    ((draw n draws as).map g).Nodup := by
  obtain ⟨rest, perm, -⟩ := draw_perm n draws as
  have all := (perm.map g).nodup_iff.mpr distinct
  rw [List.map_append] at all
  exact (List.nodup_append.mp all).1

end Draws

namespace Network

variable {net net' : Network}

/-- A part of each entry of a node's roster. -/
def parts {β : Type} (net : Network) (part : Peer → β) (id : NodeId) :
    Option (NodeId → Option β) :=
  (net.node? id).map (·.peers.parts part)

/-- The addresses are as they were, and every node finds its peers where it did. -/
structure SamePlaces (net net' : Network) : Prop where
  endpoints : net'.endpoints = net.endpoints
  addresses : net'.parts Peer.address = net.parts Peer.address

theorem SamePlaces.refl (net : Network) : SamePlaces net net := ⟨rfl, rfl⟩

theorem SamePlaces.trans {a b c : Network} (first : SamePlaces a b) (second : SamePlaces b c) :
    SamePlaces a c :=
  ⟨second.endpoints.trans first.endpoints, second.addresses.trans first.addresses⟩

section Parts

variable {β : Type} {part : Peer → β}

theorem parts_setNode {n next : Node} (here : net.node? next.id = some n)
    (same : next.peers.parts part = n.peers.parts part) :
    (net.setNode next).parts part = net.parts part := by
  funext id
  rw [parts, parts, node?_setNode]
  split
  next this =>
    rw [this, here]
    exact congrArg some same
  next => rfl

theorem parts_setNode_of_ne {next : Node} {id : NodeId} (other : id ≠ next.id) :
    (net.setNode next).parts part id = net.parts part id := by
  rw [parts, parts, node?_setNode, if_neg other]

theorem node?_of_parts {id : NodeId} (same : net'.parts part id = net.parts part id) {n' : Node}
    (here : net'.node? id = some n') :
    ∃ n, net.node? id = some n ∧ n'.peers.parts part = n.peers.parts part := by
  rw [parts, parts, here] at same
  obtain ⟨n, found, parts⟩ := Option.map_eq_some_iff.mp same.symm
  exact ⟨n, found, parts.symm⟩

end Parts

/-- A flight on arrival: what it has done to the network and what comes back. -/
def arrival (net : Network) (f : Flight) : Network × Except ExchangeError Acknowledgment :=
  match f.fate with
  | .unreachable => (net, .error (.transport (.unreachable f.address)))
  | .expires => (net, .error (.timedOut f.timeout))
  | .arrives r => ((net.deliver r f.message).1, (net.deliver r f.message).2.mapError .transport)

/-- To land is to arrive and to be concluded. -/
theorem land_eq (net : Network) (f : Flight) : (net.land f).1 =
    (net.arrival f).1.adjustNode f.initiator fun n =>
      (n.conclude f.purpose f.peer (net.arrival f).1.now (net.arrival f).2).1 := by
  unfold land arrival adjustNode
  cases f.fate with
  | unreachable | expires =>
      dsimp only
      cases net.node? f.initiator <;> rfl
  | arrives r =>
      dsimp only
      cases (net.deliver r f.message).1.node? f.initiator <;> rfl

theorem landAll_eq (net : Network) (fs : List Flight) : (net.landAll fs).1 =
    (fs.mergeSort fun a b => a.due ≤ b.due).foldl (fun net f => (net.land f).1) net := by
  have go : ∀ (fs : List Flight) (net : Network) (results : List (Except ExchangeError Unit)),
      (fs.foldl (fun (state : Network × List (Except ExchangeError Unit)) f =>
        ((state.1.land f).1, (state.1.land f).2 :: state.2)) (net, results)).1 =
      fs.foldl (fun net f => (net.land f).1) net := by
    intro fs
    induction fs with
    | nil => exact fun _ _ => rfl
    | cons f fs ih => exact fun net results => ih (net.land f).1 _
  exact go _ net []

theorem initiator_depart {initiator peer : NodeId} {address : String} {purpose : Purpose}
    {m : Message} {timeout time : Nat} :
    (net.depart initiator peer address purpose m timeout time).initiator = initiator := rfl

section Rounds

variable {n : Node} {policy : Policy} {draws : List Nat} {time : Nat}

/-- A round sends each peer that is drawn its delta. -/
theorem mem_startRound {f : Flight} : f ∈ (net.startRound n policy draws time).2 ↔
    ∃ p m, p ∈ (n.select policy draws net.now).2 ∧
      (n.select policy draws net.now).1.deltaMessage p.id net.now = .ok m ∧
      net.depart n.id p.id p.address .push m policy.timeout time = f := by
  unfold startRound
  rw [List.mem_filterMap]
  refine exists_congr fun p => ?_
  rw [exists_and_left]
  refine and_congr_right fun _ => ?_
  cases (n.select policy draws net.now).1.deltaMessage p.id net.now with
  | error e => simp only [reduceCtorEq, false_and, exists_false]
  | ok m =>
      simp only [Option.some.injEq, Except.ok.injEq, exists_eq_left']
      rfl

/-- A round that nothing cuts short lands all its flights. -/
theorem round_eq : (net.round n policy draws none).1 =
    ((net.startRound n policy draws 0).2.mergeSort fun a b => a.due ≤ b.due).foldl
      (fun net f => (net.land f).1) (net.startRound n policy draws 0).1 := by
  rw [← landAll_eq]
  unfold round
  simp only [Option.all_none, or_true, decide_true, List.filter_true]

end Rounds

end Network

namespace Fleet

/-- The node of a name has come to know and hold no less than a snapshot. -/
def Gained (s : Fleet) (id : NodeId) (x : Snapshot) : Prop :=
  ∃ n, s.Has n ∧ n.id = id ∧ x ≤ n.snapshot

end Fleet

namespace Course

open Network (SamePlaces)

/-- A stretch of a course in which everybody stays where they are, and at most one node changes the
trust that it has in others. -/
structure Stretch (own : NodeId) (c : Course) (s : Fleet) (d : Course) (t : Fleet) : Prop where
  moves : ReflTransGen Move c d
  traffic : ReflTransGen Fleet.Traffic s t
  mirrors : d.Mirrors t
  flights : c.flights ⊆ d.flights
  places : SamePlaces c.net d.net
  terms : ∀ id, id ≠ own → d.net.parts Peer.terms id = c.net.parts Peer.terms id

variable {c d e : Course} {s t u : Fleet} {n : Node} {own id : NodeId} {f : Flight}

theorem Stretch.refl (h : c.Mirrors s) (own : NodeId) : Stretch own c s c s :=
  ⟨.refl, .refl, h, subset_rfl, .refl _, fun _ _ => rfl⟩

theorem Stretch.trans (first : Stretch own c s d t) (second : Stretch own d t e u) :
    Stretch own c s e u where
  moves := first.moves.trans second.moves
  traffic := first.traffic.trans second.traffic
  mirrors := second.mirrors
  flights := first.flights.trans second.flights
  places := first.places.trans second.places
  terms := fun id other => (second.terms id other).trans (first.terms id other)

theorem Stretch.continues (h : c.Mirrors s) (stretch : Stretch own c s d t) :
    Fleet.Continues s t :=
  h.sound.invariant.continues stretch.traffic stretch.mirrors.sound.faithful

theorem Stretch.gained (h : c.Mirrors s) (stretch : Stretch own c s d t) {x : Snapshot}
    (gained : s.Gained id x) : t.Gained id x := by
  obtain ⟨n, has, name, below⟩ := gained
  obtain ⟨m, there, same, grown⟩ :=
    (stretch.continues h).grown (h.sound.invariant.present n has)
  exact ⟨m, there, same.trans name, le_trans below grown⟩

/-- A flight that its addressee will take in when it lands. -/
structure Hears (net : Network) (id : NodeId) (f : Flight) : Prop where
  arrives : f.fate = .arrives (.node id)
  addressed : f.peer = id
  foreign : f.message.sender ≠ id
  known : ∃ book, net.parts Peer.address id = some book ∧ (book f.message.sender).isSome
  delta : ∃ threats rules metrics, f.message.payload = .delta threats rules metrics

theorem Hears.mono {net net' : Network} (h : Hears net id f) (places : SamePlaces net net') :
    Hears net' id f :=
  ⟨h.arrives, h.addressed, h.foreign, places.addresses ▸ h.known, h.delta⟩

section Landings

theorem Mirrors.hears (h : c.Mirrors s) (member : f ∈ c.flights) (hears : Hears c.net id f) :
    ∃ n next ack, c.net.node? id = some n ∧ n.handle f.message c.net.now = .ok (next, ack) := by
  obtain ⟨book, found, listed⟩ := hears.known
  obtain ⟨n, here, rfl⟩ := Option.map_eq_some_iff.mp found
  obtain ⟨p, known, -⟩ := Option.map_eq_some_iff.mp (Option.some_get listed).symm
  obtain ⟨addressed, -⟩ := h.flights f member
  have name := h.named here
  have accepts : n.Accepts f.message := by
    refine ⟨?_, name ▸ hears.foreign, Roster.contains_iff.mpr ⟨p, known⟩, .inr ?_, ?_⟩
    · intro blank
      have named := (h.sound.invariant.rosters n (h.has_iff.mpr (h.has_of_node? here))).named
      rw [← blank, known] at named
      nomatch named
    · rw [addressed, hears.addressed, name]
    · intro text brought
      obtain ⟨threats, rules, metrics, delta⟩ := hears.delta
      rw [delta] at brought
      rcases brought with full | response
      · nomatch full
      · nomatch response
  obtain ⟨next, ack, handled⟩ : ∃ next ack, n.handle f.message c.net.now = .ok (next, ack) :=
    Node.handle_eq_ok_iff.mpr (Node.accepts_iff.mp accepts)
  exact ⟨n, next, ack, here, handled⟩

/-- A flight arrives, whatever comes of it; if its addressee takes it in, that one gains what the
flight speaks of. -/
theorem Mirrors.arrived (h : c.Mirrors s) (member : f ∈ c.flights) (own : NodeId) :
    ∃ d t, Stretch own c s d t ∧ d.net = (c.net.arrival f).1 ∧
      (∀ ack, (c.net.arrival f).2 = .ok ack → (f, ack) ∈ d.answers) ∧
      ∀ id origin, Hears c.net id f → ⟨f.message, origin⟩ ∈ s.sent →
        t.Gained id origin.snapshot := by
  unfold Network.arrival
  cases fate : f.fate with
  | unreachable | expires =>
      refine ⟨c, s, .refl h own, rfl, fun ack same => (nomatch same), fun id origin hears => ?_⟩
      nomatch fate.symm.trans hears.arrives
  | arrives r =>
      obtain ⟨-, -, responder, -⟩ := h.flights f member
      obtain ⟨id, rfl⟩ := responder r fate
      have addressee {id' : NodeId} (hears : Hears c.net id' f) : id = id' :=
        Responder.node.inj (Fate.arrives.inj (fate.symm.trans hears.arrives))
      rcases h.arrive member id with
        ⟨⟨e, unmoved⟩, unhandled⟩ | ⟨n, next, ack, here, handled, moved⟩
      · have step : Move c { c with net := c.net.counted } := .refused member fate unmoved
        obtain ⟨t, steps, mirrors⟩ := h.move step
        refine ⟨_, t, ⟨.single step, steps, mirrors, subset_rfl, ⟨rfl, rfl⟩, fun _ _ => rfl⟩, ?_⟩
        dsimp only
        rw [unmoved]
        refine ⟨rfl, fun _ same => (nomatch same), fun id' origin hears letter => ?_⟩
        obtain rfl := addressee hears
        obtain ⟨n, next, ack, here, handled⟩ := h.hears member hears
        exact absurd handled (unhandled n _ here)
      · have step : Move c ⟨c.net.counted.setNode next, c.flights, insert (f, ack) c.answers⟩ :=
          .taken member fate moved
        obtain ⟨t, steps, mirrors⟩ := h.move step
        have name : next.id = id := (Node.id_of_handle handled).trans (h.named here)
        have there : c.net.counted.node? next.id = some n := name ▸ here
        have addresses := Network.parts_setNode there
          (Node.parts_of_handle Peer.address handled (fun _ => rfl) fun _ => rfl)
        have terms := Network.parts_setNode there
          (Node.parts_of_handle Peer.terms handled (fun _ => rfl) fun _ => rfl)
        refine ⟨_, t, ⟨.single step, steps, mirrors, subset_rfl, ⟨rfl, addresses⟩,
          fun id _ => congrFun terms id⟩, ?_⟩
        dsimp only
        rw [moved]
        refine ⟨rfl, fun ack' same => ?_, fun id' origin hears letter => ?_⟩
        · obtain rfl := Except.ok.inj same
          exact Set.mem_insert _ _
        · obtain rfl := addressee hears
          obtain ⟨threats, rules, metrics, delta⟩ := hears.delta
          have brings : f.message.payload ≠ .request := by
            rw [delta]
            exact Payload.noConfusion
          have gained := h.sound.invariant.gains h.sound.faithful
            (h.has_iff.mpr (h.has_of_node? here)) letter brings handled
          refine ⟨next, mirrors.has_iff.mpr ?_, name, gained⟩
          exact (Network.node?_setNode _ _ _).trans (if_pos rfl)

theorem Mirrors.landed (h : c.Mirrors s) (member : f ∈ c.flights) :
    ∃ d t, Stretch f.initiator c s d t ∧ d.net = (c.net.land f).1 ∧
      ∀ id origin, Hears c.net id f → ⟨f.message, origin⟩ ∈ s.sent →
        t.Gained id origin.snapshot := by
  obtain ⟨d, t, stretch, arrival, answers, gains⟩ := h.arrived member f.initiator
  have concluded : Move d _ := .conclude (stretch.flights member) answers
  obtain ⟨u, steps, mirrors⟩ := stretch.mirrors.move concluded
  have booked : Stretch f.initiator d t
      { d with
        net := d.net.adjustNode f.initiator fun n =>
          (n.conclude f.purpose f.peer d.net.now (c.net.arrival f).2).1 } u := by
    refine ⟨.single concluded, steps, mirrors, subset_rfl, ?_, fun id other => ?_⟩
    all_goals
      unfold Network.adjustNode
      cases here : d.net.node? f.initiator with
      | none => ?_
      | some n => ?_
    · exact .refl _
    · have name := stretch.mirrors.named here
      refine ⟨rfl, Network.parts_setNode (n := n) ?_ (n.addresses_of_conclude _ _ _ _)⟩
      rw [Node.id_of_conclude, name]
      exact here
    · rfl
    · refine Network.parts_setNode_of_ne ?_
      rw [Node.id_of_conclude, stretch.mirrors.named here]
      exact other
  refine ⟨_, u, stretch.trans booked, ?_, fun id origin hears letter => ?_⟩
  · rw [Network.land_eq, ← arrival]
  · exact booked.gained stretch.mirrors (gains id origin hears letter)

/-- Flights of one node land one after the other; each addressee that hears gains what its flight
speaks of. -/
theorem Mirrors.landings (h : c.Mirrors s) (own : NodeId) (fs : List Flight)
    (sent : ∀ f ∈ fs, f ∈ c.flights ∧ f.initiator = own) : ∃ d t, Stretch own c s d t ∧
      d.net = fs.foldl (fun net f => (net.land f).1) c.net ∧
      ∀ f ∈ fs, ∀ id origin, Hears c.net id f → ⟨f.message, origin⟩ ∈ s.sent →
        t.Gained id origin.snapshot := by
  induction fs generalizing c s with
  | nil => exact ⟨c, s, .refl h own, rfl, fun _ member => absurd member List.not_mem_nil⟩
  | cons f fs ih =>
      obtain ⟨⟨under_way, own_flight⟩, others⟩ := List.forall_mem_cons.mp sent
      obtain ⟨d, t, first, net, gains⟩ := h.landed under_way
      rw [own_flight] at first
      obtain ⟨e, u, rest, nets, later⟩ := ih first.mirrors fun g member =>
        ⟨first.flights (others g member).1, (others g member).2⟩
      refine ⟨e, u, first.trans rest, ?_, List.forall_mem_cons.mpr ⟨?_, ?_⟩⟩
      · rw [nets, net, List.foldl_cons]
      · exact fun id origin hears letter => rest.gained first.mirrors (gains id origin hears letter)
      · exact fun g member id origin hears letter => later g member id origin
          (hears.mono first.places) (Fleet.sent_subset_of_steps first.traffic letter)

end Landings

section Rounds

variable {policy : Policy} {draws : List Nat}

/-- A node sends deltas off, and each of them is a letter that speaks of it. -/
theorem Mirrors.departures (h : c.Mirrors s) (has : c.Has n) (own : NodeId) (fs : List Flight)
    (written : ∀ f ∈ fs, ∃ peer m address timeout time, n.deltaMessage peer c.net.now = .ok m ∧
      f = c.net.depart n.id peer address .push m timeout time) :
    ∃ d t, Stretch own c s d t ∧ d.net = c.net ∧
      ∀ f ∈ fs, f ∈ d.flights ∧ ⟨f.message, n⟩ ∈ t.sent := by
  induction fs generalizing c s with
  | nil => exact ⟨c, s, .refl h own, rfl, fun _ member => absurd member List.not_mem_nil⟩
  | cons f fs ih =>
      obtain ⟨⟨peer, m, address, timeout, time, built, rfl⟩, others⟩ :=
        List.forall_mem_cons.mp written
      obtain ⟨step, mirrors⟩ := h.depart has (.delta built) address timeout time
      have first : Stretch own c s _ _ :=
        ⟨.single (.depart address timeout time has (.delta built)), .single step, mirrors,
          Set.subset_insert _ _, .refl _, fun _ _ => rfl⟩
      obtain ⟨d, t, rest, net, sent⟩ := ih mirrors has others
      refine ⟨d, t, first.trans rest, net, List.forall_mem_cons.mpr ⟨⟨?_, ?_⟩, sent⟩⟩
      · exact rest.flights (Set.mem_insert _ _)
      · exact Fleet.sent_subset_of_steps rest.traffic (Set.mem_insert _ _)

/-- A round begins with standings brought up to date. -/
theorem Mirrors.selected (h : c.Mirrors s) (has : c.Has n) (policy : Policy) (draws : List Nat) :
    ∃ t, Stretch n.id c s (c.setNode (n.select policy draws c.net.now).1) t := by
  have step : Move c _ := .select policy draws has
  obtain ⟨t, steps, mirrors⟩ := h.move step
  refine ⟨t, .single step, steps, mirrors, subset_rfl, ⟨rfl, ?_⟩, fun id other => ?_⟩
  · exact Network.parts_setNode has (Roster.parts_refreshAll fun _ => rfl)
  · exact Network.parts_setNode_of_ne other

/-- A peer that a delta of the node reaches, and that knows the node. -/
structure Meets (net : Network) (n : Node) (p : Peer) (timeout : Nat) : Prop where
  reached : net.Reaches p.address p.id timeout
  other : p.id ≠ n.id
  listed : n.peers.contains p.id = true
  known : ∃ book, net.parts Peer.address p.id = some book ∧ (book n.id).isSome

theorem Meets.hears {net : Network} {p : Peer} {timeout : Nat} (h : Meets net n p timeout)
    {m : Message} {now : Millis} (built : n.deltaMessage p.id now = .ok m) :
    Hears net p.id (net.depart n.id p.id p.address .push m timeout 0) := by
  obtain ⟨e, up, responder, fast⟩ := h.reached
  obtain ⟨since, -, rfl⟩ := Fleet.deltaMessage_spec built
  rw [Network.depart_of_endpoint up fast, responder]
  exact ⟨rfl, rfl, h.other.symm, h.known, _, _, _, rfl⟩

theorem deltaMessage_of_contains {peer : NodeId} (now : Millis)
    (listed : n.peers.contains peer = true) : ∃ m, n.deltaMessage peer now = .ok m := by
  obtain ⟨p, known⟩ := Roster.contains_iff.mp listed
  have claimed : n.peers.version? peer = some p.version := by
    rw [Roster.version?, known]
    rfl
  exact ⟨_, n.deltaMessage_of_version claimed now⟩

/-- What a round does: everybody stays where they are, the trust of other nodes stays as it was, and
a peer that is drawn and met gains what the node had. -/
theorem Mirrors.round (h : c.Mirrors s) (has : c.Has n) (policy : Policy) (draws : List Nat) :
    ∃ d t, Stretch n.id c s d t ∧ d.net = (c.net.round n policy draws none).1 ∧
      ∀ p ∈ (n.select policy draws c.net.now).2, Meets c.net n p policy.timeout →
        t.Gained p.id n.snapshot := by
  obtain ⟨t₁, first⟩ := h.selected has policy draws
  have here : (c.setNode (n.select policy draws c.net.now).1).Has
      (n.select policy draws c.net.now).1 := (Network.node?_setNode _ _ _).trans (if_pos rfl)
  obtain ⟨d₁, t₂, second, same, sent⟩ := first.mirrors.departures here n.id
    (c.net.startRound n policy draws 0).2 fun f member => by
      obtain ⟨p, m, -, built, rfl⟩ := Network.mem_startRound.mp member
      exact ⟨p.id, m, p.address, policy.timeout, 0, built, rfl⟩
  obtain ⟨d, t, third, landed, gains⟩ := second.mirrors.landings n.id
    ((c.net.startRound n policy draws 0).2.mergeSort fun a b => a.due ≤ b.due) fun f member => by
      have member := List.mem_mergeSort.mp member
      obtain ⟨p, m, -, built, rfl⟩ := Network.mem_startRound.mp member
      exact ⟨(sent _ member).1, Network.initiator_depart⟩
  refine ⟨d, t, (first.trans second).trans third, ?_, fun p drawn meets => ?_⟩
  · rw [Network.round_eq, landed, same]
    rfl
  · have listed : (n.select policy draws c.net.now).1.peers.contains p.id = true :=
      (Roster.contains_refreshAll c.net.now).mpr meets.listed
    obtain ⟨m, built⟩ := deltaMessage_of_contains c.net.now listed
    have member : _ ∈ (c.net.startRound n policy draws 0).2 :=
      Network.mem_startRound.mpr ⟨p, m, drawn, built, rfl⟩
    refine gains _ (List.mem_mergeSort.mpr member) p.id (n.select policy draws c.net.now).1 ?_
      (sent _ member).2
    have meets : Meets c.net (n.select policy draws c.net.now).1 p policy.timeout :=
      ⟨meets.reached, meets.other, listed, meets.known⟩
    exact (meets.hears built).mono (same ▸ first.places)

theorem Reached.moves {ids : List NodeId} {now : Millis} (run : Reached ids now c)
    (steps : ReflTransGen Move c d) : Reached ids now d := by
  induction steps with
  | refl => exact run
  | tail _ step ih => exact ih.move step

/-- Any round is part of a course. -/
theorem Reached.round {ids : List NodeId} {now : Millis} (run : Reached ids now c) (has : c.Has n)
    (policy : Policy) (draws : List Nat) :
    ∃ d, Reached ids now d ∧ d.net = (c.net.round n policy draws none).1 := by
  obtain ⟨s, h⟩ := run.mirrored
  obtain ⟨d, t, stretch, net, -⟩ := h.round has policy draws
  exact ⟨d, run.moves stretch.moves, net⟩

end Rounds

end Course

end ThreatGossip
