import FragmentGrammar.Automaton.Closure

/-! # The closure is the least closed set

    Exploring keeps two things true: what is taken or queued is reached, and what leaves
    a taken state is taken or queued.  When the queue is empty the second one says that
    the result follows the edges, so it is exactly what is reached (`mem_closure_iff`). -/

namespace FragmentGrammar

variable {edges : List (Nat × Nat)} {seeds taken queue : List Nat} {p q : Nat}

/-- Taking the front of the queue and adding to its back only appends. -/
private theorem take_append (taken queue found : List Nat) (r : Nat) :
    taken ++ [r] ++ (queue ++ found) = taken ++ r :: queue ++ found := by
  simp

/-- Nothing that is taken or queued is lost. -/
theorem mem_explore_of_mem (h : q ∈ taken ++ queue) : q ∈ explore edges taken queue := by
  fun_induction explore edges taken queue with
  | case1 taken => simpa using h
  | case2 taken r queue ih =>
      apply ih
      rw [take_append]
      exact List.mem_append_left _ h

/-- Only what is reached is taken, if only that is taken or queued before. -/
theorem reachable_of_mem_explore (known : ∀ x ∈ taken ++ queue, Reachable edges seeds x)
    (h : q ∈ explore edges taken queue) : Reachable edges seeds q := by
  fun_induction explore edges taken queue with
  | case1 taken => exact known q (by simpa using h)
  | case2 taken r queue ih =>
      apply ih _ h
      intro x hx
      rw [take_append] at hx
      rcases List.mem_append.mp hx with old | new
      · exact known x old
      · have edge : (r, x) ∈ edges := mem_successors.mp (mem_fresh.mp new).1
        exact .step (known r (by simp)) edge

/-- The result follows the edges, if what leaves a taken state is taken or queued. -/
theorem mem_explore_of_edge
    (followed : ∀ x ∈ taken, ∀ y, (x, y) ∈ edges → y ∈ taken ++ queue)
    (hp : p ∈ explore edges taken queue) (edge : (p, q) ∈ edges) :
    q ∈ explore edges taken queue := by
  fun_induction explore edges taken queue with
  | case1 taken => simpa using followed p hp q edge
  | case2 taken r queue ih =>
      refine ih ?_ hp
      intro x hx y hxy
      rw [take_append]
      by_cases seen : y ∈ taken ++ r :: queue
      · exact List.mem_append_left _ seen
      · rcases List.mem_append.mp hx with old | new
        · exact absurd (followed x old y hxy) seen
        · obtain rfl : x = r := by simpa using new
          exact List.mem_append_right _ (mem_fresh.mpr ⟨mem_successors.mpr hxy, seen⟩)

/-- The closure holds exactly what is reached. -/
theorem mem_closure_iff : q ∈ closure edges seeds ↔ Reachable edges seeds q := by
  constructor
  · intro h
    refine reachable_of_mem_explore ?_ h
    intro x hx
    have new : x ∈ fresh [] seeds := by simpa using hx
    exact .seed (mem_fresh.mp new).1
  · intro h
    induction h with
    | seed hq =>
        apply mem_explore_of_mem
        simpa using mem_fresh.mpr ⟨hq, List.not_mem_nil⟩
    | step _ edge ih =>
        exact mem_explore_of_edge (fun x hx => absurd hx List.not_mem_nil) ih edge

/-- What is reached from a state that is reached is reached. -/
theorem Reachable.trans (h : Reachable edges seeds p) (h' : Reachable edges [p] q) :
    Reachable edges seeds q := by
  induction h' with
  | seed hq =>
      obtain rfl := List.mem_singleton.mp hq
      exact h
  | step _ edge ih => exact .step ih edge

/-- An edge may be put in front. -/
theorem Reachable.head {r : Nat} (edge : (p, r) ∈ edges) (h : Reachable edges [r] q) :
    Reachable edges [p] q :=
  Reachable.trans (.step (.seed (List.mem_singleton.mpr rfl)) edge) h

end FragmentGrammar
