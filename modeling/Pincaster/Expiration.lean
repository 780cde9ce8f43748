import Pincaster.EffectOrder
/-!
# Expiration — a restart under expiration

The live store is purged between the updates; a restart replays all updates first and ignores the timestamp marks of
the journal.  The two differ on the records that a purge removed, and stay apart when one of them is put again.
-/
namespace Pincaster

open Lib (bytes System replay replay_snoc modifyAt modifyAt_eq_some)

variable {D : Type}

/-- The live store with its journal.  `purged` are the records that a purge removed and that were not deleted since,
alone or with their layer. -/
structure ExpiringServer (D : Type) where
  now : Int
  journal : List (OpBody D)
  layers : Layers D
  purged : Key → Key → Bool

inductive ExpiringStep (D : Type) where
  | update (body : OpBody D)
  | tick (now : Int)

/-- What an update does to the records that were purged. -/
def forgetPurged (body : OpBody D) (purged : Key → Key → Bool) : Key → Key → Bool :=
  match body with
  | .recordsDelete layerName key => fun l k => purged l k && !(l = layerName && k = key)
  | .layersDelete layerName => fun l k => purged l k && l ≠ layerName
  | _ => purged

/-- The records that a purge removes. -/
def expiredIn (now : Int) (layers : Layers D) (layerName key : Key) : Bool :=
  ((layers layerName).bind (· key)).any (KeyNode.expired now)

variable [Dimension D]

def expiringStep (qbounds : Rectangle2D D) (s : ExpiringServer D) : ExpiringStep D → Option (ExpiringServer D)
  | .update body => do
    let layers ← workerDoWork qbounds body s.layers
    some { s with journal := s.journal ++ [body], layers, purged := forgetPurged body s.purged }
  | .tick now => some { s with
      now, layers := purgeExpiredKeys now s.layers,
      purged := fun layerName key => s.purged layerName key || expiredIn now s.layers layerName key }

/-- Updates are applied by one worker in the order of the journal; time does not go back from when the server was
started. -/
def expiringSystem (start : Int) (qbounds : Rectangle2D D) : System (ExpiringServer D) (ExpiringStep D) where
  init := ⟨start, [], fun _ => none, fun _ _ => false⟩
  legal s
    | .update body => body.mutates = true
    | .tick now => s.now ≤ now
  step := expiringStep qbounds

omit [Dimension D] in
/-- The condition on a step: it puts no record that a purge removed. -/
def NoRecreation (s : ExpiringServer D) : ExpiringStep D → Prop
  | .update (.recordsPut putOp) => s.purged putOp.layerName putOp.key = false
  | _ => True

omit [Dimension D] in
/-- A node of the live store next to the one a replay makes: the same, unless a purge removed it. -/
def SameNode (now : Int) (purged : Bool) (live replayed : Option (KeyNode D)) : Prop :=
  live = replayed ∨ (purged = true ∧ live = none ∧ ∃ keyNode, replayed = some keyNode ∧ keyNode.expired now = true)

omit [Dimension D] in
/-- **A replay makes the layers of the live store**, and in them its records and some that are expired. -/
inductive SameLayer (now : Int) (purged : Key → Bool) : Option (KeyNodes D) → Option (KeyNodes D) → Prop
  | absent : SameLayer now purged none none
  | present {live replayed : KeyNodes D} (h : ∀ key, SameNode now (purged key) (live key) (replayed key)) :
      SameLayer now purged (some live) (some replayed)

structure ExpiringInv (qbounds : Rectangle2D D) (s : ExpiringServer D) (replayed : Layers D) : Prop where
  journal : replay (workerDoWork qbounds) s.journal (fun _ => none) = some replayed
  layers : ∀ layerName, SameLayer s.now (s.purged layerName) (s.layers layerName) (replayed layerName)

omit [Dimension D] in
theorem KeyNode.expired_mono {now now' : Int} {keyNode : KeyNode D} (h : keyNode.expired now = true) (hle : now ≤ now') :
    keyNode.expired now' = true := by
  unfold KeyNode.expired at *
  split at h
  · simp only [ge_iff_le, decide_eq_true_eq] at h ⊢
    omega
  · cases h

/-! ## A purge -/

omit [Dimension D] in
theorem SameNode.purge {now now' : Int} {purged : Bool} {live replayed : Option (KeyNode D)}
    (h : SameNode now purged live replayed) (hle : now ≤ now') :
    SameNode now' (purged || live.any (KeyNode.expired now')) (live.filter (fun n => !n.expired now')) replayed := by
  rcases h with rfl | ⟨rfl, rfl, keyNode, rfl, hexp⟩
  · cases live with
    | none => exact .inl rfl
    | some keyNode =>
      cases hexp : keyNode.expired now' with
      | false => exact .inl (by simp [hexp])
      | true => exact .inr ⟨by simp [hexp], by simp [hexp], keyNode, rfl, hexp⟩
  · exact .inr ⟨rfl, rfl, keyNode, rfl, keyNode.expired_mono hexp hle⟩

omit [Dimension D] in
/-- A purge of both makes them the same. -/
theorem SameNode.purge_eq {now now' : Int} {purged : Bool} {live replayed : Option (KeyNode D)}
    (h : SameNode now purged live replayed) (hle : now ≤ now') :
    replayed.filter (fun n => !n.expired now') = live.filter (fun n => !n.expired now') := by
  rcases h with rfl | ⟨-, rfl, keyNode, rfl, hexp⟩
  · rfl
  · simp [KeyNode.expired_mono hexp hle]

theorem ExpiringInv.tick {qbounds : Rectangle2D D} {s s' : ExpiringServer D} {replayed : Layers D} {now : Int}
    (hinv : ExpiringInv qbounds s replayed) (hle : s.now ≤ now)
    (h : expiringStep qbounds s (.tick now) = some s') : ExpiringInv qbounds s' replayed := by
  cases h
  refine ⟨hinv.journal, fun layerName => ?_⟩
  have hl := hinv.layers layerName
  simp only [purgeExpiredKeys, expiredIn]
  generalize hlive : s.layers layerName = live at hl
  generalize hrep : replayed layerName = rep at hl
  cases hl with
  | absent => exact .absent
  | present h => exact .present (fun key => (h key).purge hle)

theorem ExpiringInv.purge_eq {qbounds : Rectangle2D D} {s : ExpiringServer D} {replayed : Layers D} {now : Int}
    (hinv : ExpiringInv qbounds s replayed) (hle : s.now ≤ now) :
    purgeExpiredKeys now replayed = purgeExpiredKeys now s.layers := by
  refine funext (fun layerName => ?_)
  have hl := hinv.layers layerName
  simp only [purgeExpiredKeys]
  generalize s.layers layerName = live at hl
  generalize replayed layerName = rep at hl
  cases hl with
  | absent => rfl
  | present h => exact congrArg some (funext (fun key => (h key).purge_eq hle))

/-! ## An update -/

/-- An update of one record, when it does the same to the two nodes of it. -/
theorem SameLayer.record {qbounds : Rectangle2D D} {now : Int} {purged : Key → Bool} (purged' : Key → Bool) {body : OpBody D}
    {key : Key} (hkey : body.record = some key) {live replayed live' : Option (KeyNodes D)}
    (h : SameLayer now purged live replayed) (hother : ∀ k, k ≠ key → purged' k = purged k)
    (hnode : ∀ node node', SameNode now (purged key) node node' →
      nodeEffect qbounds body node' = nodeEffect qbounds body node)
    (hlive : layerEffect qbounds body live = some live') :
    ∃ replayed', layerEffect qbounds body replayed = some replayed' ∧ SameLayer now purged' live' replayed' := by
  cases h with
  | absent =>
    rw [layerEffect_none qbounds hkey, Option.some.injEq] at hlive
    subst hlive
    exact ⟨none, layerEffect_none qbounds hkey, .absent⟩
  | @present live replayed h =>
    rw [layerEffect_some qbounds hkey] at hlive
    obtain ⟨live', hmod, rfl⟩ := Option.map_eq_some_iff.1 hlive
    obtain ⟨heff, hsame⟩ := modifyAt_eq_some hmod
    refine ⟨some (Function.update replayed key (live' key)), ?_, .present (fun k => ?_)⟩
    · rw [layerEffect_some qbounds hkey, modifyAt, hnode _ _ (h key), heff]
      rfl
    · by_cases hk : k = key
      · subst hk
        rw [Function.update_self]
        exact .inl rfl
      · rw [Function.update_of_ne hk, hsame k hk, hother k hk]
        exact h k

/-- **What an update does to a layer of the live store it does to the one of the replay.** -/
theorem SameLayer.effect {qbounds : Rectangle2D D} {s : ExpiringServer D} {body : OpBody D} (hm : body.mutates = true)
    (hgood : NoRecreation s (.update body)) {live replayed live' : Option (KeyNodes D)}
    (h : SameLayer s.now (s.purged body.layer) live replayed) (hlive : layerEffect qbounds body live = some live') :
    ∃ replayed', layerEffect qbounds body replayed = some replayed' ∧
      SameLayer s.now (forgetPurged body s.purged body.layer) live' replayed' := by
  cases body with
  | layersCreate layerName =>
    cases h with
    | absent =>
      refine ⟨_, rfl, ?_⟩
      rw [layerEffect, Option.some.injEq] at hlive
      subst hlive
      split
      · exact .absent
      · exact .present (fun key => .inl rfl)
    | present h =>
      cases hlive
      exact ⟨_, rfl, .present h⟩
  | layersDelete layerName =>
    cases hlive
    exact ⟨none, rfl, .absent⟩
  | recordsPut putOp =>
    refine h.record (s.purged putOp.layerName) rfl (fun k _ => rfl) (fun node node' hsame => ?_) hlive
    rcases hsame with rfl | ⟨hp, -⟩
    · rfl
    · exact absurd (hp.symm.trans hgood) (by decide)
  | recordsDelete layerName key =>
    exact h.record (forgetPurged (.recordsDelete layerName key : OpBody D) s.purged layerName) rfl
      (fun k hk => by simp [forgetPurged, hk, OpBody.layer]) (fun _ _ _ => rfl) hlive
  | systemPing | layersIndex | recordsGet | searchNearby | searchInRect | searchInKeys => cases hm

theorem ExpiringInv.update {qbounds : Rectangle2D D} {s s' : ExpiringServer D} {replayed : Layers D} {body : OpBody D}
    (hinv : ExpiringInv qbounds s replayed) (hm : body.mutates = true) (hgood : NoRecreation s (.update body))
    (h : expiringStep qbounds s (.update body) = some s') : ∃ replayed', ExpiringInv qbounds s' replayed' := by
  simp only [expiringStep, Option.bind_eq_bind, Option.bind_eq_some_iff] at h
  obtain ⟨layers, hwork, h⟩ := h
  cases h
  rw [workerDoWork_eq_modifyAt qbounds hm] at hwork
  obtain ⟨heff, hother⟩ := modifyAt_eq_some hwork
  obtain ⟨layer', hrep', hsame⟩ := (hinv.layers body.layer).effect hm hgood heff
  refine ⟨Function.update replayed body.layer layer', ?_, fun layerName => ?_⟩
  · rw [replay_snoc, hinv.journal, Option.bind_some, workerDoWork_eq_modifyAt qbounds hm, modifyAt, hrep']
    rfl
  · by_cases hl : layerName = body.layer
    · subst hl
      rw [Function.update_self]
      exact hsame
    · have hforget : forgetPurged body s.purged layerName = s.purged layerName := by
        funext k
        cases body <;> simp_all [forgetPurged, OpBody.layer]
      simp only [Function.update_of_ne hl, hother layerName hl, hforget]
      exact hinv.layers layerName

/-- **One step keeps the invariant**, under the condition. -/
theorem ExpiringInv.step {start : Int} {qbounds : Rectangle2D D} {s s' : ExpiringServer D} {i : ExpiringStep D}
    (hinv : ∃ replayed, ExpiringInv qbounds s replayed) (hl : (expiringSystem start qbounds).legal s i)
    (hgood : NoRecreation s i) (hs : (expiringSystem start qbounds).step s i = some s') :
    ∃ replayed, ExpiringInv qbounds s' replayed := by
  obtain ⟨replayed, hinv⟩ := hinv
  cases i with
  | update body => exact hinv.update hl hgood hs
  | tick now => exact ⟨replayed, hinv.tick hl hs⟩

/-- **Without a PUT on a record that a purge removed, a restart is transparent**: right after a purge, the live store
is the purge of the store that the journal describes. -/
theorem restart_transparent {start : Int} {qbounds : Rectangle2D D}
    {h : List (ExpiringServer D × ExpiringStep D)} {s s' : ExpiringServer D} (hr : (expiringSystem start qbounds).Run h s)
    (hgood : ∀ p ∈ h, NoRecreation p.1 p.2) {t : Int}
    (hl : (expiringSystem start qbounds).legal s (.tick t)) (hs : (expiringSystem start qbounds).step s (.tick t) = some s') :
    (replay (workerDoWork qbounds) s'.journal (fun _ => none)).map (purgeExpiredKeys t) = some s'.layers := by
  obtain ⟨replayed, hinv⟩ := (hr.inv_of_good (fun s => ∃ replayed, ExpiringInv qbounds s replayed) _
    ⟨fun _ => none, rfl, fun _ => .absent⟩ (fun s i s' => ExpiringInv.step) hgood).2
  cases hs
  simp only [hinv.journal, Option.map_some, hinv.purge_eq hl]

/-! ## A record that comes back -/

def berlin : Position2D ℚ := ⟨52, 13⟩

/-- The PUT of a position that expires at 10. -/
def putBerlin : OpBody ℚ :=
  .recordsPut { (recordsPutOp layerX (bytes "a") : RecordsPutOp ℚ) with
    position := berlin, positionSet := true, expiresAt := 10 }

/-- The PUT of a record with an empty body. -/
def putEmpty : OpBody ℚ := .recordsPut (recordsPutOp layerX (bytes "a"))

instance (s : ExpiringServer ℚ) (i : ExpiringStep ℚ) : Decidable ((expiringSystem 0 earth).legal s i) :=
  match i with
  | .update body => inferInstanceAs (Decidable (body.mutates = true))
  | .tick now => inferInstanceAs (Decidable (s.now ≤ now))

instance (s : ExpiringServer ℚ) (i : ExpiringStep ℚ) : Decidable (NoRecreation s i) :=
  match i with
  | .update body => by cases body <;> unfold NoRecreation <;> infer_instance
  | .tick _ => .isTrue trivial

/-- The record is purged, deleted and put again, with a purge at the end. -/
theorem restart_transparent_deleted : ∃ h s s', (expiringSystem 0 earth).Run h s ∧
    h.map Prod.snd = [.update (.layersCreate layerX), .update putBerlin, .tick 20,
      .update (.recordsDelete layerX (bytes "a")), .update putEmpty] ∧
    (expiringSystem 0 earth).step s (.tick 30) = some s' ∧
    (replay (workerDoWork earth) s'.journal (fun _ => none)).map (purgeExpiredKeys 30) = some s'.layers := by
  have hdec : (((expiringSystem 0 earth).restrict NoRecreation).exec [.update (.layersCreate layerX), .update putBerlin,
      .tick 20, .update (.recordsDelete layerX (bytes "a")), .update putEmpty] (expiringSystem 0 earth).init).any
        (fun s => (expiringSystem 0 earth).legal s (.tick 30)) = true := by decide +kernel
  obtain ⟨s, hs, hl⟩ := (Option.any_eq_true _ _).1 hdec
  obtain ⟨h, hr, hops⟩ := Lib.System.Run.of_exec _ Lib.System.Run.init hs
  obtain ⟨hr, hgood⟩ := hr.of_restrict
  exact ⟨h, s, _, hr, by simpa using hops, rfl, restart_transparent hr hgood (of_decide_eq_true hl) rfl⟩

def slotOf (layers : Layers ℚ) : Bool := (((layers layerX).bind (· (bytes "a"))).bind KeyNode.slot).isSome

/-- **A record that expires, is purged and is put again**: the live one has no position, the one a restart makes still
has the old one. -/
theorem restart_resurrects : ∃ h s s', (expiringSystem 0 earth).Run h s ∧
    h.map Prod.snd = [.update (.layersCreate layerX), .update putBerlin, .tick 20, .update putEmpty] ∧
    (expiringSystem 0 earth).legal s (.tick 30) ∧ (expiringSystem 0 earth).step s (.tick 30) = some s' ∧
    (replay (workerDoWork earth) s'.journal (fun _ => none)).map (purgeExpiredKeys 30) ≠ some s'.layers := by
  have hdec : ((expiringSystem 0 earth).exec [.update (.layersCreate layerX), .update putBerlin, .tick 20,
      .update putEmpty] (expiringSystem 0 earth).init).any (fun s => (expiringSystem 0 earth).legal s (.tick 30) ∧
        ((replay (workerDoWork earth) s.journal (fun _ => none)).map (purgeExpiredKeys 30)).map slotOf ≠
          some (slotOf (purgeExpiredKeys 30 s.layers))) = true := by decide +kernel
  obtain ⟨s, hs, hdec⟩ := (Option.any_eq_true _ _).1 hdec
  obtain ⟨hl, hne⟩ := of_decide_eq_true hdec
  obtain ⟨h, hr, hops⟩ := Lib.System.Run.of_exec _ Lib.System.Run.init hs
  exact ⟨h, s, _, hr, by simpa using hops, hl, rfl, fun he => hne (by rw [he]; rfl)⟩

end Pincaster
