import SynodStore.Network.Burst

namespace SynodStore.Network

variable {κ σ : Type}

/-- Calls one after another, each of which is lost or answered at once. -/
def heed (up : String → Bool) (f : Errand → StateM σ String) : List Errand → StateM σ Returns
  | [], s => ([], s)
  | e :: es, s =>
    let p := if up e.node then (.ok (f e s).1, (f e s).2) else (.error (.unreceived e.node), s)
    let q := heed up f es p.2
    (p.1 :: q.1, q.2)

def reaches (net : Network κ σ) (name : String) : Bool :=
  (net.route? name).isSome

/-- The servers that the errands reach are alive and answer at once, going by the services alone. -/
def Prompt (h : Hosting κ σ) (f : Errand → StateM σ String) (errands : List Errand) (net : Network κ σ) : Prop :=
  ∀ e ∈ errands, ∀ n, net.route? e.node = some n → n.alive = true ∧ ∀ net', h.serve n.host e.text net' =
    (.response (f e net'.services).1 none, { net' with services := (f e net'.services).2 })

structure Still (net : Network κ σ) : Prop where
  line : net.line = .carrying
  queue : net.queue = []
  waiting : net.waiting = []
  held : net.held = none
  awake : net.awake = []
  resting : net.resting = []
  nodes : ∀ (name : String) (n : Node κ), net.nodes[name]? = some n → n.mailbox = [] ∧ n.work = .listening

variable {h : Hosting κ σ} {f : Errand → StateM σ String} {net : Network κ σ} {errands : List Errand} {e : Errand}
variable {up : String → Bool} {s : σ} {i : Nat}

theorem Still.after (hs : net.Still) (s : σ) (issued : Nat) (crowd : Crowd) :
    Still { net with services := s, issued := issued, crowd := crowd } :=
  ⟨hs.line, hs.queue, hs.waiting, hs.held, hs.awake, hs.resting, hs.nodes⟩

theorem Still.insert {n : Node κ} (hs : net.Still) (name : String) (hm : n.mailbox = []) (hw : n.work = .listening)
    (s : σ) : Still { net with nodes := net.nodes.insert name n, services := s } where
  line := hs.line
  queue := hs.queue
  waiting := hs.waiting
  held := hs.held
  awake := hs.awake
  resting := hs.resting
  nodes name' m hmem := by
    rw [Std.ExtTreeMap.getElem?_insert] at hmem
    split at hmem
    · cases hmem
      exact ⟨hm, hw⟩
    · exact hs.nodes name' m hmem

theorem quiet_iff : net.quiet ↔ net.Still := by
  simp only [quiet, Bool.and_eq_true, decide_eq_true_eq, List.isEmpty_iff, Option.isNone_iff_eq_none, List.all_eq_true,
    Prod.forall, Std.ExtTreeMap.mem_toList_iff_getElem?_eq_some]
  constructor
  · rintro ⟨⟨⟨⟨⟨⟨hline, hqueue⟩, hwaiting⟩, hheld⟩, hawake⟩, hresting⟩, hnodes⟩
    exact ⟨hline, hqueue, hwaiting, hheld, hawake, hresting, hnodes⟩
  · intro hs
    exact ⟨⟨⟨⟨⟨⟨hs.line, hs.queue⟩, hs.waiting⟩, hs.held⟩, hs.awake⟩, hs.resting⟩, hs.nodes⟩

theorem length_heed (up : String → Bool) (f : Errand → StateM σ String) (errands : List Errand) (s : σ) :
    (heed up f errands s).1.length = errands.length := by
  induction errands generalizing s with
  | nil => rfl
  | cons e errands ih => simp [heed, ih]

theorem getElem?_heed : (heed up f errands s).1[i]? = errands[i]?.map fun e =>
    if up e.node then .ok (f e (heed up f (errands.take i) s).2).1 else .error (.unreceived e.node) := by
  induction errands generalizing i s with
  | nil => rfl
  | cons e errands ih =>
      cases i with
      | zero => by_cases hu : up e.node <;> simp [heed, hu]
      | succ i => simp [heed, ih]

theorem services_take_succ (he : errands[i]? = some e) : (heed up f (errands.take (i + 1)) s).2 =
    if up e.node then (f e (heed up f (errands.take i) s).2).2 else (heed up f (errands.take i) s).2 := by
  induction errands generalizing i s with
  | nil => cases he
  | cons e' errands ih =>
      cases i with
      | zero =>
          obtain rfl := Option.some.inj he
          by_cases hu : up e'.node <;> simp [heed, hu]
      | succ i => simp only [List.take_succ_cons, heed, ih he]

theorem Prompt.tail (hp : Prompt h f (e :: errands) net) : Prompt h f errands net :=
  fun e he => hp e (List.mem_cons_of_mem _ he)

theorem Prompt.employ (hp : Prompt h f (e :: errands) net) {n : Node κ} (hn : net.route? e.node = some n)
    (stamina : Nat) (net' : Network κ σ) : employ h stamina n.host e.text net' =
      (.response (f e net'.services).1 none, { net' with services := (f e net'.services).2 }) := by
  rw [Network.employ, (hp e List.mem_cons_self n hn).2]

theorem oneByOne?_eq_heed (hp : Prompt h f errands net) :
    oneByOne? h errands net =
      some ((heed net.reaches f errands net.services).1,
        { net with services := (heed net.reaches f errands net.services).2 }) := by
  induction errands generalizing net with
  | nil => rfl
  | cons e errands ih =>
      cases hn : net.route? e.node with
      | none =>
          have hr : net.reaches e.node = false := by rw [reaches, hn]; rfl
          simp [oneByOne?, heed, hn, hr, ih hp.tail]
      | some n =>
          have hr : net.reaches e.node = true := by rw [reaches, hn]; rfl
          have hfilter : (net.route? e.node).filter (·.alive) = some n := by
            rw [hn, Option.filter_some, if_pos (hp e List.mem_cons_self n hn).1]
          have hrest := @ih { net with services := (f e net.services).2 } hp.tail
          rw [oneByOne?, hfilter]
          dsimp only
          rw [hp.employ hn]
          dsimp only
          rw [hrest, heed, if_pos hr]
          rfl

/-- Where nothing is under way a few calls that nothing holds up are made one after another. -/
theorem burst_eq_heed (hs : net.Still) (hp : Prompt h f errands net) (hl : errands.length ≤ intimate)
    (ht : ∀ e ∈ errands, 0 < e.timeout) :
    burst h errands net =
      ((heed net.reaches f errands net.services).1, ({ net with
        services := (heed net.reaches f errands net.services).2 } : Network κ σ).setStamina
          (leftover net.crowd.stamina errands.length)) := by
  have hcond : net.quiet && errands.length ≤ intimate && errands.all (0 < ·.timeout) := by
    simpa [quiet_iff.2 hs, hl] using ht
  rw [burst, swiftly?, if_pos hcond, oneByOne?_eq_heed hp]
  rfl

end SynodStore.Network
