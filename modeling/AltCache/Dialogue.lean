import Mathlib

/-!
# Dialogues

One side asks, and makes of each answer either a result or the state it goes on in. The other
side answers with everything it has been asked in view, so it may be stateful or hostile. A
budget that every further question uses up bounds the dialogue against any such side.
-/

namespace AltCache.Dialogue

/-- The asking side: what it asks, and what it makes of the answer. -/
structure Asker (State Question Answer Result : Type*) where
  ask : State → Question
  take : State → Answer → Result ⊕ State

variable {State Question Answer Result : Type*}

namespace Asker

/-- The questions and answers of at most some rounds, until there is a result. The other side
sees the questions so far, the newest first. -/
def transcript (asker : Asker State Question Answer Result) (answer : List Question → Answer) :
    ℕ → List Question → State → List (Question × Answer)
  | 0, _, _ => []
  | rounds + 1, asked, state =>
    let asked := asker.ask state :: asked
    (asker.ask state, answer asked) ::
      match asker.take state (answer asked) with
      | .inl _ => []
      | .inr next => asker.transcript answer rounds asked next

/-- The result that answers lead to, if they are enough. -/
def result (asker : Asker State Question Answer Result) : State → List Answer → Option Result
  | _, [] => none
  | state, given :: answers =>
    match asker.take state given with
    | .inl found => some found
    | .inr next => asker.result next answers

/-- A dialogue ends with a result: each answer but the last makes the asker go on. -/
inductive Ends (asker : Asker State Question Answer Result) :
    State → List Answer → Result → Prop
  | last {state : State} {given : Answer} {found : Result}
      (htake : asker.take state given = .inl found) : Ends asker state [given] found
  | next {state next : State} {given : Answer} {answers : List Answer} {found : Result}
      (htake : asker.take state given = .inr next) (hends : Ends asker next answers found) :
      Ends asker state (given :: answers) found

/-- A budget of an asker whose answers are allowed ones: each time it goes on, some of the
budget is used up. -/
structure Budget (asker : Asker State Question Answer Result) (Allowed : Answer → Prop) where
  Valid : State → Prop
  left : State → ℕ
  spend : ∀ {state next : State} {given : Answer}, Valid state → Allowed given →
    asker.take state given = .inr next → Valid next ∧ left next < left state

section Transcript

variable {asker : Asker State Question Answer Result} {answer : List Question → Answer}
  {Allowed : Answer → Prop} {rounds more : ℕ} {asked : List Question} {state next : State}
  {answers : List Answer} {found : Result}

/-- A dialogue that has a result is over. -/
theorem transcript_last
    (htake : asker.take state (answer (asker.ask state :: asked)) = .inl found) :
    asker.transcript answer (rounds + 1) asked state =
      [(asker.ask state, answer (asker.ask state :: asked))] := by
  rw [transcript, htake]

/-- One that has none goes on. -/
theorem transcript_next
    (htake : asker.take state (answer (asker.ask state :: asked)) = .inr next) :
    asker.transcript answer (rounds + 1) asked state =
      (asker.ask state, answer (asker.ask state :: asked)) ::
        asker.transcript answer rounds (asker.ask state :: asked) next := by
  rw [transcript, htake]

/-- What a dialogue ends with is the result of its answers. -/
theorem Ends.result_eq (h : asker.Ends state answers found) :
    asker.result state answers = some found := by
  induction h with
  | last htake => rw [result, htake]
  | next htake _ ih =>
    rw [result, htake]
    exact ih

/-- A dialogue that goes on ends as the rest of it does. -/
theorem ends_next_iff {given : Answer} (htake : asker.take state given = .inr next) :
    asker.Ends state (given :: answers) found ↔ asker.Ends next answers found := by
  constructor
  · intro h
    generalize hlist : given :: answers = list at h
    cases h with
    | last hlast =>
      obtain rfl := List.head_eq_of_cons_eq hlist
      rw [htake] at hlast
      cases hlast
    | next hnext hends =>
      obtain ⟨rfl, rfl⟩ := List.cons.inj hlist
      obtain rfl := Sum.inr.inj (htake.symm.trans hnext)
      exact hends
  · exact .next htake

/-- More rounds add nothing to a dialogue that has ended. -/
theorem Ends.transcript_eq
    (h : asker.Ends state ((asker.transcript answer rounds asked state).map Prod.snd) found)
    (hmore : rounds ≤ more) :
    asker.transcript answer more asked state = asker.transcript answer rounds asked state := by
  induction rounds generalizing more asked state with
  | zero => cases h
  | succ rounds ih =>
    obtain ⟨more, rfl⟩ := Nat.exists_eq_add_of_le' (Nat.one_le_of_lt hmore)
    cases htake : asker.take state (answer (asker.ask state :: asked)) with
    | inl found => rw [transcript_last htake, transcript_last htake]
    | inr next =>
      rw [transcript_next htake, List.map_cons, ends_next_iff htake] at h
      rw [transcript_next htake, transcript_next htake, ih h (Nat.le_of_succ_le_succ hmore)]

/-- There are at most as many questions as the budget allows, and the first one. -/
theorem Budget.length_transcript_le (budget : asker.Budget Allowed)
    (hallowed : ∀ asked, Allowed (answer asked)) (hvalid : budget.Valid state) :
    (asker.transcript answer rounds asked state).length ≤ budget.left state + 1 := by
  induction rounds generalizing asked state with
  | zero => exact Nat.zero_le _
  | succ rounds ih =>
    cases htake : asker.take state (answer (asker.ask state :: asked)) with
    | inl found =>
      rw [transcript_last htake]
      exact Nat.le_add_left _ _
    | inr next =>
      obtain ⟨hnext, hleft⟩ := budget.spend hvalid (hallowed _) htake
      rw [transcript_next htake, List.length_cons]
      exact Nat.succ_le_succ ((ih hnext).trans hleft)

/-- With more rounds than the budget allows questions, there is a result. -/
theorem Budget.ends (budget : asker.Budget Allowed) (hallowed : ∀ asked, Allowed (answer asked))
    (hvalid : budget.Valid state) (hrounds : budget.left state < rounds) :
    ∃ found, asker.Ends state ((asker.transcript answer rounds asked state).map Prod.snd)
      found := by
  induction rounds generalizing asked state with
  | zero => exact absurd hrounds (Nat.not_lt_zero _)
  | succ rounds ih =>
    cases htake : asker.take state (answer (asker.ask state :: asked)) with
    | inl found =>
      rw [transcript_last htake]
      exact ⟨found, .last htake⟩
    | inr next =>
      obtain ⟨hnext, hleft⟩ := budget.spend hvalid (hallowed _) htake
      obtain ⟨found, hends⟩ := ih hnext (Nat.lt_of_lt_of_le hleft (Nat.le_of_lt_succ hrounds))
      rw [transcript_next htake, List.map_cons]
      exact ⟨found, .next htake hends⟩

end Transcript

end Asker

end AltCache.Dialogue
