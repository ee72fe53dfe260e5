/-! # Closure of states under edges

    Which states can be reached from some seeds along given edges.  A queue holds the
    states that are known but not looked at yet; taking one from its front adds the
    successors that are new at its back.  A state enters the queue when it is first
    seen and never again, so each is taken at most once, and the edges that lead to
    states not seen yet bound how long this goes on.  `Reachable` says the same without
    a queue, as the least set that holds the seeds and follows the edges. -/

namespace FragmentGrammar

/-- Where the edges that leave `q` lead, in order. -/
def successors (edges : List (Nat × Nat)) (q : Nat) : List Nat :=
  edges.filterMap fun e => if e.1 = q then some e.2 else none

theorem mem_successors {edges : List (Nat × Nat)} {p q : Nat} :
    q ∈ successors edges p ↔ (p, q) ∈ edges := by
  simp only [successors, List.mem_filterMap, Option.ite_none_right_eq_some, Option.some.injEq]
  constructor
  · rintro ⟨⟨_, _⟩, h, rfl, rfl⟩
    exact h
  · intro h
    exact ⟨_, h, rfl, rfl⟩

/-- The members of a list that are not in `seen`, each of them once. -/
def fresh (seen : List Nat) : List Nat → List Nat
  | [] => []
  | q :: qs => if q ∈ seen then fresh seen qs else q :: fresh (q :: seen) qs

theorem mem_fresh {seen qs : List Nat} {q : Nat} : q ∈ fresh seen qs ↔ q ∈ qs ∧ q ∉ seen := by
  fun_induction fresh seen qs <;> grind

theorem nodup_fresh (seen qs : List Nat) : (fresh seen qs).Nodup := by
  fun_induction fresh seen qs with
  | case1 => exact .nil
  | case2 _ _ _ _ ih => exact ih
  | case3 seen q qs _ ih =>
    refine List.nodup_cons.mpr ⟨fun h => ?_, ih⟩
    exact (mem_fresh.mp h).2 List.mem_cons_self

/-- The edges that lead to a state not in `seen`. -/
def unseen (edges : List (Nat × Nat)) (seen : List Nat) : List (Nat × Nat) :=
  edges.filter (·.2 ∉ seen)

/-- Seeing more leaves fewer edges to follow. -/
theorem unseen_length_le (edges : List (Nat × Nat)) {seen seen' : List Nat}
    (h : ∀ q ∈ seen, q ∈ seen') : (unseen edges seen').length ≤ (unseen edges seen).length := by
  rw [unseen, unseen, ← List.countP_eq_length_filter, ← List.countP_eq_length_filter]
  refine List.countP_mono_left fun e _ he => ?_
  simp only [decide_eq_true_eq] at he ⊢
  exact fun hs => he (h _ hs)

/-- Following an edge to a state that was not seen before uses that edge up. -/
theorem unseen_length_lt {edges : List (Nat × Nat)} {seen seen' : List Nat} {p q : Nat}
    (h : ∀ q ∈ seen, q ∈ seen') (edge : (p, q) ∈ edges) (new : q ∉ seen) (now : q ∈ seen') :
    (unseen edges seen').length < (unseen edges seen).length := by
  have same : unseen edges seen' = (unseen edges seen).filter (·.2 ∉ seen') := by
    rw [unseen, unseen, List.filter_filter]
    refine List.filter_congr fun e _ => ?_
    by_cases he : e.2 ∈ seen'
    · simp [he]
    · simpa [he] using fun hs => he (h e.2 hs)
  rw [same]
  refine Nat.lt_of_le_of_ne (List.length_filter_le ..) fun heq => ?_
  have all := List.length_filter_eq_length_iff.mp heq (p, q) (by simp [unseen, edge, new])
  simp [now] at all

/-- Takes states from the front of the queue until none is left.  The result lists the
    states in the order in which they were taken. -/
def explore (edges : List (Nat × Nat)) (taken : List Nat) : List Nat → List Nat
  | [] => taken
  | q :: queue =>
    explore edges (taken ++ [q]) (queue ++ fresh (taken ++ q :: queue) (successors edges q))
termination_by queue => ((unseen edges (taken ++ queue)).length, queue.length)
decreasing_by
  have grows : ∀ x ∈ taken ++ q :: queue, x ∈ taken ++ [q] ++
      (queue ++ fresh (taken ++ q :: queue) (successors edges q)) := by
    simp only [List.mem_append, List.mem_cons]
    grind
  cases h : fresh (taken ++ q :: queue) (successors edges q) with
  | nil =>
    rw [h] at grows
    rcases Nat.lt_or_eq_of_le (unseen_length_le edges grows) with less | same
    · exact Prod.Lex.left _ _ less
    · rw [same]
      exact Prod.Lex.right _ (by simp)
  | cons x xs =>
    have found : x ∈ fresh (taken ++ q :: queue) (successors edges q) := by simp [h]
    rw [h] at grows
    refine Prod.Lex.left _ _ (unseen_length_lt grows (mem_successors.mp (mem_fresh.mp found).1)
      (mem_fresh.mp found).2 ?_)
    simp

/-- The states that the edges reach from the seeds, in the order in which they are
    found. -/
def closure (edges : List (Nat × Nat)) (seeds : List Nat) : List Nat :=
  explore edges [] (fresh [] seeds)

/-- The least set of states that holds the seeds and follows the edges. -/
inductive Reachable (edges : List (Nat × Nat)) (seeds : List Nat) : Nat → Prop
  /-- Every seed is reached. -/
  | seed {q : Nat} : q ∈ seeds → Reachable edges seeds q
  /-- An edge leads from a state that is reached to one that is reached. -/
  | step {p q : Nat} : Reachable edges seeds p → (p, q) ∈ edges → Reachable edges seeds q

end FragmentGrammar
