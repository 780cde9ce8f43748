import Pincaster.Lib.Worklist
/-!
# TreeWalk — a tree whose nodes are visited one by one

The nodes that were visited, and those that are pending: the children of the visited ones that are not visited yet.  In
what order the pending ones are taken does not matter; in the end every node of the tree has been visited once.
-/
namespace Lib

variable {α : Type} {next : α → List α} {root : α}

/-- **A tree by the children of its nodes.** -/
structure TreeOf (next : α → List α) (root : α) : Prop where
  nodup : ∀ x, (next x).Nodup
  parent : ∀ x y z, z ∈ next x → z ∈ next y → x = y
  root : ∀ x, root ∉ next x

/-- **A walk through a tree**, with the nodes that were visited and those that are pending. -/
structure Visiting (next : α → List α) (root : α) (seen pending : List α) : Prop where
  nodup : (seen ++ pending).Nodup
  start : root ∈ seen ++ pending
  closed : ∀ x ∈ seen, ∀ y ∈ next x, y ∈ seen ++ pending
  origin : ∀ y ∈ seen ++ pending, y = root ∨ ∃ x ∈ seen, y ∈ next x

theorem visiting_root (next : α → List α) (root : α) : Visiting next root [] [root] where
  nodup := List.nodup_singleton root
  start := List.mem_singleton_self root
  closed _ hx := absurd hx List.not_mem_nil
  origin _ hy := .inl (List.mem_singleton.1 hy)

variable {seen pending rest : List α} {x : α}

/-- The order of the pending nodes does not matter. -/
theorem Visiting.perm (h : Visiting next root seen pending) (hp : pending.Perm rest) :
    Visiting next root seen rest := by
  have hall : (seen ++ pending).Perm (seen ++ rest) := hp.append_left seen
  refine ⟨hall.nodup_iff.1 h.nodup, hall.mem_iff.1 h.start, fun x hx y hy => hall.mem_iff.1 (h.closed x hx y hy),
    fun y hy => h.origin y (hall.mem_iff.2 hy)⟩

/-- **One more node is visited**, and its children are pending. -/
theorem Visiting.step (htree : TreeOf next root) (h : Visiting next root seen pending) (hp : pending.Perm (x :: rest)) :
    Visiting next root (seen ++ [x]) (rest ++ next x) := by
  have hall : (seen ++ pending).Perm (seen ++ [x] ++ rest) := by
    rw [List.append_assoc, List.singleton_append]
    exact hp.append_left seen
  have hnodup : (seen ++ [x] ++ rest).Nodup := hall.nodup_iff.1 h.nodup
  have hx : x ∉ seen := fun hx => by
    rw [List.append_assoc, List.nodup_append] at hnodup
    exact hnodup.2.2 x hx x (by simp) rfl
  have hnew : ∀ y ∈ next x, y ∉ seen ++ pending := fun y hy hmem => by
    rcases h.origin y hmem with rfl | ⟨z, hz, hyz⟩
    · exact htree.root x hy
    · exact hx (htree.parent z x y hyz hy ▸ hz)
  have hmem : ∀ y, y ∈ seen ++ [x] ++ (rest ++ next x) ↔ y ∈ seen ++ pending ∨ y ∈ next x := fun y => by
    rw [← List.append_assoc, List.mem_append, hall.mem_iff]
  refine ⟨?_, (hmem root).2 (.inl h.start), fun y hy z hz => (hmem z).2 ?_, fun y hy => ?_⟩
  · rw [← List.append_assoc]
    refine List.nodup_append.2 ⟨hnodup, htree.nodup x, fun y hy z hz hyz => ?_⟩
    exact hnew z hz (hall.mem_iff.2 (hyz ▸ hy))
  · rcases List.mem_append.1 hy with hy | hy
    · exact .inl (h.closed y hy z hz)
    · exact .inr (List.mem_singleton.1 hy ▸ hz)
  · rcases (hmem y).1 hy with hy | hy
    · exact (h.origin y hy).imp_right (fun hyx => hyx.imp (fun z hz => ⟨List.mem_append_left _ hz.1, hz.2⟩))
    · exact .inr ⟨x, by simp, hy⟩

/-- **A walk with nothing pending** has visited what is reached from the root. -/
theorem Visiting.all (h : Visiting next root seen []) {y : α} (hy : Reach next root y) : y ∈ seen := by
  induction hy with
  | refl => simpa using h.start
  | @tail x y _ hxy ih => simpa using h.closed x ih y hxy

end Lib
