import Pincaster.StoreLaws
import Pincaster.Lib.Runs
/-!
# EffectOrder — the journal has the order of arrival, the store the order of the workers

The main thread queues a mutation and writes its record in one go.  A worker takes an operation from the queue under
`mtx_cqueue` and applies it later, under the write lock of `rwlock_layers`; between the two it may be overtaken.
-/
namespace Pincaster

open Lib (bytes System replay replay_snoc replay_middle)

variable {D : Type}

/-- The main thread, the workers and the store.  `inflight` are the operations that were dequeued and are not applied
yet, each with its worker, the one dequeued first in front. -/
structure Server (D : Type) where
  opTid : Nat
  cqueue : CQueue (Op D)
  journal : List (OpBody D)
  inflight : List (Nat × OpBody D)
  layers : Layers D

inductive ServerStep (D : Type) where
  | accept (body : OpBody D)
  | dequeue (worker : Nat)
  | apply (worker : Nat)

/-- The operation a worker has in its hands, and what the others have. -/
def takeInflight {α : Type} (worker : Nat) : List (Nat × α) → Option (α × List (Nat × α))
  | [] => none
  | p :: inflight =>
    if p.1 = worker then some (p.2, inflight)
    else (takeInflight worker inflight).map (fun (a, rest) => (a, p :: rest))

/-- What was dequeued before the operation of a worker. -/
def overtaken {α : Type} (worker : Nat) (inflight : List (Nat × α)) : List (Nat × α) :=
  inflight.takeWhile (fun p => p.1 ≠ worker)

theorem takeInflight_eq_some {α : Type} {worker : Nat} : ∀ {inflight rest : List (Nat × α)} {a : α},
    takeInflight worker inflight = some (a, rest) → ∃ after,
      inflight = overtaken worker inflight ++ (worker, a) :: after ∧ rest = overtaken worker inflight ++ after
  | [], _, _, h => by cases h
  | p :: inflight, rest, a, h => by
    rw [takeInflight] at h
    split at h
    · rename_i hp
      cases h
      have : overtaken worker (p :: inflight) = [] := by simp [overtaken, hp]
      exact ⟨inflight, by rw [this, ← hp]; rfl, by rw [this]; rfl⟩
    · rename_i hp
      obtain ⟨⟨a', rest'⟩, htake, he⟩ := Option.map_eq_some_iff.1 h
      cases he
      obtain ⟨after, h1, h2⟩ := takeInflight_eq_some htake
      have : overtaken worker (p :: inflight) = p :: overtaken worker inflight := by simp [overtaken, hp]
      refine ⟨after, ?_, ?_⟩
      · rw [this, List.cons_append, ← h1]
      · rw [this, List.cons_append, ← h2]

variable [Dimension D]

def serverStep (qbounds : Rectangle2D D) (s : Server D) : ServerStep D → Option (Server D)
  | .accept body => do
    let (cqueue, ret) ← pushCqueue s.cqueue ⟨false, s.opTid + 1, body⟩
    -- the answer to a full queue is an error, and nothing is logged
    if ret ≠ 0 then some { s with opTid := s.opTid + 1, cqueue }
    else some { s with opTid := s.opTid + 1, cqueue, journal := s.journal ++ [body] }
  | .dequeue worker => do
    match ← shiftCqueue s.cqueue with
    | (cqueue, none) => some { s with cqueue }
    | (cqueue, some op) => some { s with cqueue, inflight := s.inflight ++ [(worker, op.body)] }
  | .apply worker => do
    let (body, inflight) ← takeInflight worker s.inflight
    let layers ← workerDoWork qbounds body s.layers
    some { s with inflight, layers }

/-- `nbWorkers` workers on a queue that was just initialised. -/
def serverSystem (nbWorkers : Nat) (qbounds : Rectangle2D D) (cqueue : CQueue (Op D)) :
    System (Server D) (ServerStep D) where
  init := ⟨0, cqueue, [], [], fun _ => none⟩
  legal s
    | .accept body => body.mutates = true
    | .dequeue worker => worker < nbWorkers ∧ worker ∉ s.inflight.map Prod.fst
    | .apply worker => worker ∈ s.inflight.map Prod.fst
  step := serverStep qbounds

instance (nbWorkers : Nat) (qbounds : Rectangle2D D) (cqueue : CQueue (Op D)) (s : Server D) (i : ServerStep D) :
    Decidable ((serverSystem nbWorkers qbounds cqueue).legal s i) :=
  match i with
  | .accept body => inferInstanceAs (Decidable (body.mutates = true))
  | .dequeue worker => inferInstanceAs (Decidable (worker < nbWorkers ∧ worker ∉ s.inflight.map Prod.fst))
  | .apply worker => inferInstanceAs (Decidable (worker ∈ s.inflight.map Prod.fst))

omit [Dimension D] in
/-- The operations that are not applied yet, in the order of their arrival. -/
def Server.pending (s : Server D) (queue : List (Op D)) : List (OpBody D) :=
  s.inflight.map Prod.snd ++ queue.map Op.body

omit [Dimension D] in
/-- The condition on a step: a worker that applies an operation overtakes only operations that are independent of
it. -/
def InOrder (s : Server D) : ServerStep D → Prop
  | .apply worker => ∀ body rest, takeInflight worker s.inflight = some (body, rest) →
      ∀ p ∈ overtaken worker s.inflight, Independent p.2 body
  | _ => True

/-- **What is pending leads from the store to the one the journal describes.** -/
structure ServerInv (qbounds : Rectangle2D D) (s : Server D) (queue : List (Op D)) : Prop where
  queued : s.cqueue.Holds queue
  mutates : ∀ body ∈ s.pending queue, body.mutates = true
  replayed : replay (workerDoWork qbounds) (s.pending queue) s.layers =
    replay (workerDoWork qbounds) s.journal (fun _ => none)

theorem ServerInv.accept {qbounds : Rectangle2D D} {s s' : Server D} {queue : List (Op D)} {body : OpBody D}
    (hinv : ServerInv qbounds s queue) (hm : body.mutates = true)
    (h : serverStep qbounds s (.accept body) = some s') : ∃ queue', ServerInv qbounds s' queue' := by
  obtain ⟨q, ret, hpush, _, hcase⟩ := pushCqueue_spec hinv.queued ⟨false, s.opTid + 1, body⟩
  simp only [serverStep, hpush, Option.bind_eq_bind, Option.bind_some] at h
  rcases hcase with ⟨_, rfl, hq⟩ | ⟨_, rfl, rfl⟩
  · rw [if_neg (by simp), Option.some.injEq] at h
    subst h
    have hpending : Server.pending { s with opTid := s.opTid + 1, cqueue := q, journal := s.journal ++ [body] }
        (queue ++ [⟨false, s.opTid + 1, body⟩]) = s.pending queue ++ [body] := by simp [Server.pending]
    refine ⟨_, hq, ?_, ?_⟩
    · rw [hpending]
      intro b hb
      rcases List.mem_append.1 hb with hb | hb
      · exact hinv.mutates b hb
      · rw [List.mem_singleton.1 hb]
        exact hm
    · rw [hpending, replay_snoc, replay_snoc, hinv.replayed]
  · rw [if_pos (by decide), Option.some.injEq] at h
    subst h
    exact ⟨queue, hinv.queued, hinv.mutates, hinv.replayed⟩

theorem ServerInv.dequeue {qbounds : Rectangle2D D} {s s' : Server D} {queue : List (Op D)} {worker : Nat}
    (hinv : ServerInv qbounds s queue) (h : serverStep qbounds s (.dequeue worker) = some s') :
    ∃ queue', ServerInv qbounds s' queue' := by
  obtain ⟨q, hshift, _, hq⟩ := shiftCqueue_spec hinv.queued
  simp only [serverStep, hshift, Option.bind_eq_bind, Option.bind_some] at h
  cases queue with
  | nil =>
    cases h
    exact ⟨[], hq, hinv.mutates, hinv.replayed⟩
  | cons op queue =>
    cases h
    have hpending : Server.pending { s with cqueue := q, inflight := s.inflight ++ [(worker, op.body)] } queue =
        s.pending (op :: queue) := by simp [Server.pending]
    exact ⟨queue, hq, hpending ▸ hinv.mutates, hpending ▸ hinv.replayed⟩

theorem ServerInv.apply {qbounds : Rectangle2D D} {s s' : Server D} {queue : List (Op D)} {worker : Nat}
    (hinv : ServerInv qbounds s queue) (hgood : InOrder s (.apply worker))
    (h : serverStep qbounds s (.apply worker) = some s') : ∃ queue', ServerInv qbounds s' queue' := by
  simp only [serverStep, Option.bind_eq_bind, Option.bind_eq_some_iff] at h
  obtain ⟨⟨body, inflight⟩, htake, layers, hwork, h⟩ := h
  cases h
  obtain ⟨after, hbefore, rfl⟩ := takeInflight_eq_some htake
  have hgood := hgood body _ htake
  generalize hfront : overtaken worker s.inflight = front at hbefore hgood
  have hpending : s.pending queue = front.map Prod.snd ++ body :: (after.map Prod.snd ++ queue.map Op.body) := by
    simp [Server.pending, hbefore]
  have hmut := hinv.mutates
  rw [hpending] at hmut
  have hcomm : ∀ a ∈ front.map Prod.snd, Lib.Commutes (workerDoWork qbounds) a body := by
    intro a ha
    obtain ⟨p, hp, rfl⟩ := List.mem_map.1 ha
    exact (hgood p hp).commutes qbounds (hmut _ (List.mem_append_left _ ha)) (hmut _ (by simp))
  have hrep := hinv.replayed
  rw [hpending, replay_middle _ _ _ hcomm, hwork, Option.bind_some] at hrep
  refine ⟨queue, hinv.queued, fun b hb => hmut b ?_, ?_⟩
  · simp only [Server.pending, List.map_append, List.mem_append, List.mem_cons] at hb ⊢
    tauto
  · rw [← hrep]
    simp [Server.pending]

/-- **One step keeps the invariant**, under the condition. -/
theorem ServerInv.step {nbWorkers : Nat} {qbounds : Rectangle2D D} {cqueue : CQueue (Op D)} {s s' : Server D}
    {i : ServerStep D} (hinv : ∃ queue, ServerInv qbounds s queue)
    (hl : (serverSystem nbWorkers qbounds cqueue).legal s i) (hgood : InOrder s i)
    (hs : (serverSystem nbWorkers qbounds cqueue).step s i = some s') : ∃ queue, ServerInv qbounds s' queue := by
  obtain ⟨queue, hinv⟩ := hinv
  cases i with
  | accept body => exact hinv.accept hl hs
  | dequeue worker => exact hinv.dequeue hs
  | apply worker => exact hinv.apply hgood hs

/-- **Without an operation that overtakes one it depends on, the store is the one the journal describes**, whenever the
queue is empty and the workers are idle. -/
theorem idle_store_eq_replay {nbWorkers n : Nat} {qbounds : Rectangle2D D} {cqueue : CQueue (Op D)}
    (hinit : initCqueue n = some cqueue) {h : List (Server D × ServerStep D)} {s : Server D}
    (hr : (serverSystem nbWorkers qbounds cqueue).Run h s) (hgood : ∀ p ∈ h, InOrder p.1 p.2)
    (hqueue : s.cqueue.Holds []) (hidle : s.inflight = []) :
    replay (workerDoWork qbounds) s.journal (fun _ => none) = some s.layers := by
  obtain ⟨queue, hinv⟩ := (hr.inv_of_good (fun s => ∃ queue, ServerInv qbounds s queue) _
    ⟨[], (initCqueue_holds hinit).1, by simp [serverSystem, Server.pending], rfl⟩
    (fun s i s' => ServerInv.step) hgood).2
  have hrep := hinv.replayed
  rw [hinv.queued.unique hqueue] at hrep
  simpa [Server.pending, hidle] using hrep.symm

/-- **With one worker no operation overtakes another**, so that the law holds in all of its runs. -/
theorem inOrder_of_one_worker {qbounds : Rectangle2D D} {cqueue : CQueue (Op D)} {h : List (Server D × ServerStep D)}
    {s : Server D} (hr : (serverSystem 1 qbounds cqueue).Run h s) : ∀ p ∈ h, InOrder p.1 p.2 := by
  have hstep (s : Server D) (i : ServerStep D) (s' : Server D) (hinv : ∀ p ∈ s.inflight, p.1 = 0)
      (hl : (serverSystem 1 qbounds cqueue).legal s i)
      (hs : (serverSystem 1 qbounds cqueue).step s i = some s') : ∀ p ∈ s'.inflight, p.1 = 0 := by
    cases i with
    | accept body =>
      simp only [serverSystem, serverStep, Option.bind_eq_bind, Option.bind_eq_some_iff] at hs
      obtain ⟨⟨q, ret⟩, _, hs⟩ := hs
      simp only at hs
      split at hs <;> cases hs <;> exact hinv
    | dequeue worker =>
      simp only [serverSystem, serverStep, Option.bind_eq_bind, Option.bind_eq_some_iff] at hs
      obtain ⟨⟨q, _ | op⟩, _, hs⟩ := hs <;> cases hs
      · exact hinv
      · intro p hp
        rcases List.mem_append.1 hp with hp | hp
        · exact hinv p hp
        · rw [List.mem_singleton.1 hp]
          exact Nat.lt_one_iff.1 hl.1
    | apply worker =>
      simp only [serverSystem, serverStep, Option.bind_eq_bind, Option.bind_eq_some_iff] at hs
      obtain ⟨⟨body, inflight⟩, htake, layers, _, hs⟩ := hs
      cases hs
      obtain ⟨after, hbefore, rfl⟩ := takeInflight_eq_some htake
      intro p hp
      refine hinv p ?_
      rw [hbefore]
      rcases List.mem_append.1 hp with hp | hp <;> simp [hp]
  have hone := (hr.inv_of_good (fun s => ∀ p ∈ s.inflight, p.1 = 0) (fun _ _ => True)
    (by simp [serverSystem]) (fun s i s' hinv hl _ hs => hstep s i s' hinv hl hs) (fun _ _ => trivial)).1
  rintro ⟨s, i⟩ hp
  have hzero := hone _ hp
  cases i with
  | accept | dequeue => trivial
  | apply worker =>
    intro body rest htake q hq
    obtain ⟨after, hbefore, _⟩ := takeInflight_eq_some htake
    have hw : worker = 0 := hzero (worker, body) (by rw [hbefore]; simp)
    have hqmem : q ∈ s.inflight := by
      rw [hbefore]
      exact List.mem_append_left _ hq
    have hne := List.mem_takeWhile_imp hq
    simp [hw, hzero q hqmem] at hne

/-! ## Two workers -/

/-- The whole earth. -/
def earth : Rectangle2D ℚ := ⟨⟨-90, -180⟩, ⟨90, 180⟩⟩

def layerX : Key := bytes "x" ++ [0]

/-- A PUT that only sets the expiration of a record. -/
def putExpiring (key : Key) (expiresAt : Int) : OpBody ℚ := .recordsPut { recordsPutOp layerX key with expiresAt }

def emptyRing : CQueue (Op ℚ) := ⟨fun _ => none, 15, none, none⟩

def expirationOf (key : Key) (layers : Layers ℚ) : Option Int := ((layers layerX).bind (· key)).bind KeyNode.expirable

/-- Two workers take an operation each, and the second operation is applied first. -/
def swapped (first second : OpBody ℚ) : List (ServerStep ℚ) :=
  [.accept (.layersCreate layerX), .dequeue 0, .apply 0, .accept first, .accept second, .dequeue 0, .dequeue 1, .apply 1,
    .apply 0]

def Server.idle (s : Server ℚ) : Prop :=
  s.cqueue.firstElement = none ∧ s.cqueue.lastElement = none ∧ s.inflight.map Prod.fst = []

instance (s : Server ℚ) : Decidable s.idle := inferInstanceAs (Decidable (_ ∧ _ ∧ _))

theorem Server.idle.spec {s : Server ℚ} (h : s.idle) : s.cqueue.Holds [] ∧ s.inflight = [] :=
  ⟨CQueue.holds_nil h.1 h.2.1, List.map_eq_nil_iff.1 h.2.2⟩

/-- A condition on a step that can be computed: what is overtaken is on another record. -/
def distinctRecords (s : Server ℚ) : ServerStep ℚ → Bool
  | .apply worker => (takeInflight worker s.inflight).all (fun taken => (overtaken worker s.inflight).all (fun p =>
      p.2.record.isSome && taken.1.record.isSome && p.2.record ≠ taken.1.record))
  | _ => true

theorem inOrder_of_distinctRecords {s : Server ℚ} {i : ServerStep ℚ} (h : distinctRecords s i = true) : InOrder s i := by
  cases i with
  | accept | dequeue => trivial
  | apply worker =>
    intro body rest htake p hp
    simp only [distinctRecords, htake, Option.all_some, List.all_eq_true] at h
    have hp := h p hp
    simp only [Bool.and_eq_true, Option.isSome_iff_exists, ne_eq, decide_eq_true_eq] at hp
    obtain ⟨⟨⟨k, hk⟩, l, hl⟩, hkl⟩ := hp
    exact .inr (.inr ⟨k, l, hk, hl, fun he => hkl (by rw [hk, hl, he])⟩)

/-- Two PUTs on two records, applied in the opposite order. -/
theorem idle_store_eq_replay_two_records : ∃ h s, (serverSystem 2 earth emptyRing).Run h s ∧
    h.map Prod.snd = swapped (putExpiring (bytes "a") 1) (putExpiring (bytes "b") 2) ∧
    replay (workerDoWork earth) s.journal (fun _ => none) = some s.layers := by
  have hdec : (((serverSystem 2 earth emptyRing).restrict (fun s i => distinctRecords s i = true)).exec
      (swapped (putExpiring (bytes "a") 1) (putExpiring (bytes "b") 2)) (serverSystem 2 earth emptyRing).init).any
        (fun s => s.idle) = true := by decide +kernel
  obtain ⟨s, hs, hidle⟩ := (Option.any_eq_true _ _).1 hdec
  obtain ⟨h, hr, hops⟩ := Lib.System.Run.of_exec _ Lib.System.Run.init hs
  obtain ⟨hr, hgood⟩ := hr.of_restrict
  obtain ⟨hqueue, hinflight⟩ := (of_decide_eq_true hidle : s.idle).spec
  exact ⟨h, s, hr, by simpa using hops, idle_store_eq_replay (n := 16) rfl hr
    (fun p hp => inOrder_of_distinctRecords (hgood p hp)) hqueue hinflight⟩

/-- **Two PUTs on one record, applied in the opposite order**: the store keeps the first one, the journal ends with
the second. -/
theorem replay_differs_from_store : ∃ h s, (serverSystem 2 earth emptyRing).Run h s ∧
    h.map Prod.snd = swapped (putExpiring (bytes "a") 1) (putExpiring (bytes "a") 2) ∧
    s.cqueue.Holds [] ∧ s.inflight = [] ∧
    replay (workerDoWork earth) s.journal (fun _ => none) ≠ some s.layers := by
  obtain ⟨s, hs, hidle, hne⟩ : ∃ s, (serverSystem 2 earth emptyRing).exec
      (swapped (putExpiring (bytes "a") 1) (putExpiring (bytes "a") 2)) (serverSystem 2 earth emptyRing).init = some s ∧
      s.idle ∧ (replay (workerDoWork earth) s.journal (fun _ => none)).map (expirationOf (bytes "a")) ≠
        some (expirationOf (bytes "a") s.layers) := by
    have h : ((serverSystem 2 earth emptyRing).exec (swapped (putExpiring (bytes "a") 1) (putExpiring (bytes "a") 2))
        (serverSystem 2 earth emptyRing).init).any (fun s => s.idle ∧
          (replay (workerDoWork earth) s.journal (fun _ => none)).map (expirationOf (bytes "a")) ≠
            some (expirationOf (bytes "a") s.layers)) = true := by decide +kernel
    simpa [Option.any_eq_true] using h
  obtain ⟨h, hr, hops⟩ := Lib.System.Run.of_exec _ Lib.System.Run.init hs
  obtain ⟨hqueue, hinflight⟩ := hidle.spec
  exact ⟨h, s, hr, by simpa using hops, hqueue, hinflight, fun he => hne (by rw [he]; rfl)⟩

end Pincaster
