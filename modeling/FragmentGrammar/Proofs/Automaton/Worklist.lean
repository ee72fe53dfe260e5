import FragmentGrammar.Label.CharKind
import FragmentGrammar.Move
import FragmentGrammar.Proofs.Automaton.Closure
import Mathlib.Data.List.Perm.Subperm
import Mathlib.Logic.Relation
import Mathlib.Order.Bounds.Defs

/-! # The queue of a closure

    Exploring is a loop over a queue.  A turn takes the state at the front and puts the
    successors that were not seen before at the back, so whatever is seen is taken or
    waits, and never twice (`Worklist.Sound`).  Only seeds and states that edges lead to
    are ever seen, which bounds the turns that there can be.  When the queue is empty the
    states that were taken are the closure: the least set that holds the seeds and
    follows the edges, whatever the order of moves and seeds (`closure_exact`). -/

namespace FragmentGrammar

variable {edges : List (Nat × Nat)} {seeds : List Nat}

/-- Whatever is reached is a seed or the end of an edge. -/
theorem Reachable.mem_append_targets {q : Nat} (h : Reachable edges seeds q) :
    q ∈ seeds ++ edges.map (·.2) := by
  cases h with
  | seed hq => exact List.mem_append_left _ hq
  | step _ edge => exact List.mem_append_right _ (List.mem_map_of_mem edge)

/-- A loop over a queue of states, between two turns. -/
structure Worklist where
  /-- The states that have been taken, in this order. -/
  taken : List Nat
  /-- The states that wait to be taken. -/
  queue : List Nat

namespace Worklist

/-- Every seed waits once, and no state has been taken. -/
def start (seeds : List Nat) : Worklist :=
  ⟨[], fresh [] seeds⟩

/-- The state at the front is taken, and its successors wait behind all others unless they
    have been seen before. -/
inductive Turn (edges : List (Nat × Nat)) : Worklist → Worklist → Prop
  | take (taken queue : List Nat) (q : Nat) : Turn edges ⟨taken, q :: queue⟩
      ⟨taken ++ [q], queue ++ fresh (taken ++ q :: queue) (successors edges q)⟩

/-- `Turns edges n w v`: after `n` turns `w` has become `v`. -/
inductive Turns (edges : List (Nat × Nat)) : Nat → Worklist → Worklist → Prop
  | none (w : Worklist) : Turns edges 0 w w
  | more {n : Nat} {u v w : Worklist} :
      Turn edges u v → Turns edges n v w → Turns edges (n + 1) u w

variable {n m : Nat} {u v w : Worklist} {states : List Nat}

/-- The state in front is taken, so a turn has one outcome. -/
theorem Turn.unique (h : Turn edges u v) (h' : Turn edges u w) : v = w := by
  cases h
  cases h'
  rfl

/-- A row of turns is the beginning of any row that leaves nothing waiting. -/
theorem Turns.exists_rest (h : Turns edges n u v) (whole : Turns edges m u ⟨states, []⟩) :
    ∃ k, m = n + k ∧ Turns edges k v ⟨states, []⟩ := by
  induction h generalizing m with
  | none u => exact ⟨m, (Nat.zero_add m).symm, whole⟩
  | more turn _ ih =>
      cases whole with
      | none => cases turn
      | more turn' rest =>
          obtain rfl := turn.unique turn'
          obtain ⟨k, rfl, behind⟩ := ih rest
          exact ⟨k, Nat.add_right_comm _ _ _, behind⟩

/-- Each turn takes one state. -/
theorem Turns.length_taken (h : Turns edges n u v) : v.taken.length = u.taken.length + n := by
  induction h with
  | none => rfl
  | more turn _ ih =>
      cases turn with
      | take taken queue q =>
          rw [ih, List.length_append, List.length_singleton, Nat.add_right_comm, Nat.add_assoc]

/-- Exploring takes turns until nothing waits. -/
theorem exists_turns_explore (edges : List (Nat × Nat)) (taken queue : List Nat) :
    ∃ n, Turns edges n ⟨taken, queue⟩ ⟨explore edges taken queue, []⟩ := by
  fun_induction explore edges taken queue with
  | case1 taken => exact ⟨0, .none _⟩
  | case2 taken q queue ih =>
      obtain ⟨n, turns⟩ := ih
      exact ⟨n + 1, .more (.take taken queue q) turns⟩

/-- The closure has been taken after as many turns as it has states. -/
theorem turns_closure (edges : List (Nat × Nat)) (seeds : List Nat) :
    Turns edges (closure edges seeds).length (start seeds) ⟨closure edges seeds, []⟩ := by
  obtain ⟨n, turns⟩ := exists_turns_explore edges [] (fresh [] seeds)
  have count : (closure edges seeds).length = n := turns.length_taken.trans (Nat.zero_add n)
  rw [count]
  exact turns

/-! ## What stays true -/

/-- What is taken or waits is reached, and is there only once. -/
structure Sound (edges : List (Nat × Nat)) (seeds : List Nat) (w : Worklist) : Prop where
  once : (w.taken ++ w.queue).Nodup
  reached : ∀ q ∈ w.taken ++ w.queue, Reachable edges seeds q

/-- The queue starts with the seeds, each once. -/
theorem sound_start (edges : List (Nat × Nat)) (seeds : List Nat) :
    Sound edges seeds (start seeds) where
  once := nodup_fresh [] seeds
  reached _ hq := .seed (mem_fresh.mp hq).1

/-- One turn takes a state that was waiting and adds only successors that are new. -/
theorem Sound.turn (h : Sound edges seeds u) (turn : Turn edges u v) : Sound edges seeds v := by
  cases turn with
  | take taken queue q =>
      have seen : taken ++ [q] ++ (queue ++ fresh (taken ++ q :: queue) (successors edges q)) =
          taken ++ q :: queue ++ fresh (taken ++ q :: queue) (successors edges q) := by
        simp
      constructor
      · rw [seen, List.nodup_append]
        refine ⟨h.once, nodup_fresh _ _, ?_⟩
        rintro x old _ new rfl
        exact (mem_fresh.mp new).2 old
      · intro x hx
        rw [seen] at hx
        rcases List.mem_append.mp hx with old | new
        · exact h.reached x old
        · have edge : (q, x) ∈ edges := mem_successors.mp (mem_fresh.mp new).1
          exact .step (h.reached q (by simp)) edge

/-- By induction so does every number of turns. -/
theorem Sound.turns (h : Sound edges seeds u) (turns : Turns edges n u v) :
    Sound edges seeds v := by
  induction turns with
  | none => exact h
  | more turn _ ih => exact ih (h.turn turn)

/-- There are at most as many states in play as there are seeds and edges. -/
theorem Sound.length_le (h : w.Sound edges seeds) :
    (w.taken ++ w.queue).length ≤ seeds.length + edges.length := by
  have known : w.taken ++ w.queue ⊆ seeds ++ edges.map (·.2) :=
    fun q hq => (h.reached q hq).mem_append_targets
  calc (w.taken ++ w.queue).length
      ≤ (seeds ++ edges.map (·.2)).length := (List.subperm_of_subset h.once known).length_le
    _ = seeds.length + edges.length := by rw [List.length_append, List.length_map]

end Worklist

/-! ## Selected edges -/

variable {L : Type} {moves moves' : List (Move L)} {edge : Move L → Option (Nat × Nat)}
  {seeds' : List Nat} {p q : Nat}

/-- The edge that is selected for some move leads from `p` to `q`. -/
def Leads (moves : List (Move L)) (edge : Move L → Option (Nat × Nat)) (p q : Nat) : Prop :=
  ∃ m ∈ moves, edge m = some (p, q)

/-- The edges in the list are those that some move gives. -/
theorem mem_selected_iff : (p, q) ∈ moves.filterMap edge ↔ Leads moves edge p q :=
  List.mem_filterMap

/-- Reached is what one comes to from a seed, following any number of edges. -/
theorem reachable_selected_iff :
    Reachable (moves.filterMap edge) seeds q ↔
      ∃ p ∈ seeds, Relation.ReflTransGen (Leads moves edge) p q := by
  constructor
  · intro h
    induction h with
    | seed hq => exact ⟨_, hq, .refl⟩
    | step _ leads ih =>
        obtain ⟨p, hp, path⟩ := ih
        exact ⟨p, hp, path.tail (mem_selected_iff.mp leads)⟩
  · rintro ⟨p, hp, path⟩
    induction path with
    | refl => exact .seed hp
    | tail _ leads ih => exact .step ih (mem_selected_iff.mpr leads)

/-- The sets of states that hold the seeds and follow the selected edges. -/
def ClosedSets (moves : List (Move L)) (edge : Move L → Option (Nat × Nat)) (seeds : List Nat) :
    Set (Set Nat) :=
  {S | (∀ q ∈ seeds, q ∈ S) ∧ ∀ p q, Leads moves edge p q → p ∈ S → q ∈ S}

/-- What the loop ends with is the least closed set. -/
theorem isLeast_closure : IsLeast (ClosedSets moves edge seeds)
    {q | q ∈ closure (moves.filterMap edge) seeds} := by
  constructor
  · constructor
    · intro q hq
      exact mem_closure_iff.mpr (.seed hq)
    · intro p q leads hp
      exact mem_closure_iff.mpr (.step (mem_closure_iff.mp hp) (mem_selected_iff.mpr leads))
  · rintro S ⟨holds, follows⟩ q hq
    have reached : Reachable (moves.filterMap edge) seeds q := mem_closure_iff.mp hq
    clear hq
    induction reached with
    | seed hq => exact holds _ hq
    | step _ leads ih => exact follows _ _ (mem_selected_iff.mp leads) ih

/-- No state is taken twice. -/
theorem nodup_closure (edges : List (Nat × Nat)) (seeds : List Nat) :
    (closure edges seeds).Nodup := by
  have whole := ((Worklist.sound_start edges seeds).turns (Worklist.turns_closure edges seeds)).once
  rwa [List.append_nil] at whole

/-- The closure depends on which moves and seeds there are, but not on where or how often
    they are listed. -/
theorem closure_perm (sameMoves : ∀ m, m ∈ moves ↔ m ∈ moves')
    (sameSeeds : ∀ q, q ∈ seeds ↔ q ∈ seeds') :
    (closure (moves.filterMap edge) seeds).Perm (closure (moves'.filterMap edge) seeds') := by
  have sameEdges : Leads moves edge = Leads moves' edge := by
    funext p q
    simp only [Leads, sameMoves]
  refine (List.perm_ext_iff_of_nodup (nodup_closure _ _) (nodup_closure _ _)).mpr ?_
  intro q
  simp only [mem_closure_iff, reachable_selected_iff, sameEdges, sameSeeds]

/-! ## The closure is exact -/

/-- The list `states` is what a loop over a queue comes to that begins with the seeds and
    follows the edges that are selected for the moves. -/
structure IsClosure (moves : List (Move L)) (edge : Move L → Option (Nat × Nat))
    (seeds states : List Nat) : Prop where
  /-- After a turn for each of the states nothing waits, and it is they that were taken. -/
  ends : Worklist.Turns (moves.filterMap edge) states.length (.start seeds) ⟨states, []⟩
  /-- No row of turns is longer. -/
  longest : ∀ n w, Worklist.Turns (moves.filterMap edge) n (.start seeds) w → n ≤ states.length
  bounded : states.length ≤ seeds.length + moves.length
  /-- At no time has a state been taken twice, or waits when it was taken or waits already. -/
  once : ∀ n w, Worklist.Turns (moves.filterMap edge) n (.start seeds) w →
    (w.taken ++ w.queue).Nodup
  /-- The states are those that some number of edges leads to from a seed. -/
  reached : ∀ q, q ∈ states ↔ ∃ p ∈ seeds, Relation.ReflTransGen (Leads moves edge) p q
  /-- They are the least set that holds the seeds and follows the edges. -/
  least : IsLeast (ClosedSets moves edge seeds) {q | q ∈ states}

/-- The loop over the queue ends with the closure, having taken each of its states once,
    and neither order nor repetition of moves and seeds make a difference to it. -/
theorem closure_exact (moves : List (Move L)) (edge : Move L → Option (Nat × Nat))
    (seeds : List Nat) :
    IsClosure moves edge seeds (closure (moves.filterMap edge) seeds) ∧
      ∀ (moves' : List (Move L)) (seeds' : List Nat), (∀ m, m ∈ moves ↔ m ∈ moves') →
        (∀ q, q ∈ seeds ↔ q ∈ seeds') →
        (closure (moves.filterMap edge) seeds).Perm (closure (moves'.filterMap edge) seeds') := by
  have ends := Worklist.turns_closure (moves.filterMap edge) seeds
  have sound {n : Nat} {w : Worklist}
      (turns : Worklist.Turns (moves.filterMap edge) n (.start seeds) w) :
      w.Sound (moves.filterMap edge) seeds :=
    (Worklist.sound_start _ seeds).turns turns
  refine ⟨⟨ends, ?_, ?_, fun n w turns => (sound turns).once, ?_, isLeast_closure⟩,
    fun moves' seeds' => closure_perm⟩
  · intro n w turns
    obtain ⟨k, count, -⟩ := turns.exists_rest ends
    omega
  · calc (closure (moves.filterMap edge) seeds).length
        = (closure (moves.filterMap edge) seeds ++ []).length := by rw [List.append_nil]
      _ ≤ seeds.length + (moves.filterMap edge).length := (sound ends).length_le
      _ ≤ seeds.length + moves.length :=
        Nat.add_le_add_left (List.length_filterMap_le edge moves) _
  · intro q
    rw [mem_closure_iff, reachable_selected_iff]

/-- Moves around a ring, with a loop, with ways out that read nothing, and with a move
    apart from the others. -/
def ringMoves : List (Move CharKind) :=
  [⟨1, 2, .digit⟩, ⟨2, 7, .digit⟩, ⟨2, 2, .letter⟩, ⟨7, 1, .letter⟩, ⟨7, 3, .silent⟩,
    ⟨5, 4, .digit⟩]

/-- Where a move that reads something leads. -/
def readingEdge (m : Move CharKind) : Option (Nat × Nat) :=
  if m.isEpsilon then none else some (m.source, m.target)

/-- Seeds that are listed twice, and moves that are listed again in another order. -/
theorem closure_exact_ring :
    closure (ringMoves.filterMap readingEdge) [7, 2, 7] = [7, 2, 1] ∧
      closure ((ringMoves ++ ringMoves.reverse).filterMap readingEdge) [2, 7] = [2, 7, 1] ∧
      IsClosure ringMoves readingEdge [7, 2, 7] [7, 2, 1] ∧ [7, 2, 1].Perm [2, 7, 1] := by
  have ring : ringMoves.filterMap readingEdge = [(1, 2), (2, 7), (2, 2), (7, 1), (5, 4)] := by
    decide +kernel
  have twice : (ringMoves ++ ringMoves.reverse).filterMap readingEdge =
      [(1, 2), (2, 7), (2, 2), (7, 1), (5, 4), (5, 4), (7, 1), (2, 2), (2, 7), (1, 2)] := by
    decide +kernel
  have first : closure (ringMoves.filterMap readingEdge) [7, 2, 7] = [7, 2, 1] := by
    rw [ring]
    simp [closure, explore, fresh, successors]
  have second :
      closure ((ringMoves ++ ringMoves.reverse).filterMap readingEdge) [2, 7] = [2, 7, 1] := by
    rw [twice]
    simp [closure, explore, fresh, successors]
  obtain ⟨exact, same⟩ := closure_exact ringMoves readingEdge [7, 2, 7]
  have alike := same (ringMoves ++ ringMoves.reverse) [2, 7] (by simp) (by simp [or_comm])
  rw [first] at exact alike
  rw [second] at alike
  exact ⟨first, second, exact, alike⟩

end FragmentGrammar
