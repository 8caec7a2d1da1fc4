import AltCache.Replay.SlotOrder
import AltCache.Replay.Write

/-!
# Staging until confirmation

The abstract replay engine. It starts from a base state read at some slot, its floor,
stages writes until their slots are confirmed, and then applies them in slot order. The
bounds travel with the state: nothing below the floor is kept and nothing above the
confirmed slot is applied. Which writes are staged at all is left to the engines built
on it.
-/

namespace AltCache.Replay

variable {κ β : Type*}

/-- Applied and staged writes over a base state read at `floor`. -/
structure Staging (κ β : Type*) where
  floor : ℕ
  confirmed : ℕ
  applied : List (Write κ β)
  staged : List (Write κ β)
  above_floor : ∀ w ∈ applied ++ staged, floor ≤ w.slot
  applied_le : ∀ w ∈ applied, w.slot ≤ confirmed

/-- One call on a replay engine. -/
inductive Call (κ β : Type*) where
  | queue (w : Write κ β)
  | confirm (slot : ℕ)
  | settle

/-- The write a call delivers. -/
def Call.write? : Call κ β → Option (Write κ β)
  | .queue w => some w
  | .confirm _ => none
  | .settle => none

/-- The slot a call confirms. -/
def Call.slot? : Call κ β → Option ℕ
  | .queue _ => none
  | .confirm s => some s
  | .settle => none

/-- Change the value a call delivers. -/
def Call.map {γ : Type*} (f : β → γ) : Call κ β → Call κ γ
  | .queue w => .queue ⟨w.key, w.slot, w.version, f w.value⟩
  | .confirm s => .confirm s
  | .settle => .settle

/-- The writes delivered by calls, in order. -/
def delivered (calls : List (Call κ β)) : List (Write κ β) := calls.filterMap Call.write?

@[simp] theorem delivered_append (first second : List (Call κ β)) :
    delivered (first ++ second) = delivered first ++ delivered second :=
  List.filterMap_append

/-- A call delivers before the calls after it. -/
theorem delivered_cons (c : Call κ β) (calls : List (Call κ β)) :
    delivered (c :: calls) = delivered [c] ++ delivered calls :=
  delivered_append [c] calls

@[simp] theorem delivered_nil : delivered ([] : List (Call κ β)) = [] := rfl

@[simp] theorem delivered_queue (w : Write κ β) : delivered [.queue w] = [w] := rfl

@[simp] theorem delivered_confirm (s : ℕ) : delivered [(.confirm s : Call κ β)] = [] := rfl

@[simp] theorem delivered_settle : delivered [(.settle : Call κ β)] = [] := rfl

@[simp] theorem delivered_settle_cons (calls : List (Call κ β)) :
    delivered (.settle :: calls) = delivered calls := rfl

@[simp] theorem mem_delivered {calls : List (Call κ β)} {w : Write κ β} :
    w ∈ delivered calls ↔ .queue w ∈ calls := by
  simp only [delivered, List.mem_filterMap]
  constructor
  · rintro ⟨c, hc, hw⟩
    cases c with
    | queue v => exact Option.some.inj hw ▸ hc
    | confirm s => cases hw
    | settle => cases hw
  · exact fun h => ⟨_, h, rfl⟩

/-- The confirmed slot after calls that start from a confirmed slot: the largest named. -/
def confirmedBy (c : ℕ) (calls : List (Call κ β)) : ℕ := (calls.filterMap Call.slot?).foldl max c

@[simp] theorem confirmedBy_nil (c : ℕ) : confirmedBy c ([] : List (Call κ β)) = c := rfl

@[simp] theorem confirmedBy_append (c : ℕ) (first second : List (Call κ β)) :
    confirmedBy c (first ++ second) = confirmedBy (confirmedBy c first) second := by
  rw [confirmedBy, List.filterMap_append, List.foldl_append]
  rfl

@[simp] theorem confirmedBy_cons (c : ℕ) (call : Call κ β) (calls : List (Call κ β)) :
    confirmedBy c (call :: calls) = confirmedBy (call.slot?.elim c (max c)) calls := by
  cases call <;> rfl

@[simp] theorem confirmedBy_settle_cons (c : ℕ) (calls : List (Call κ β)) :
    confirmedBy c (.settle :: calls) = confirmedBy c calls := rfl

/-- Calls never lower the confirmed slot. -/
theorem le_confirmedBy (c : ℕ) (calls : List (Call κ β)) : c ≤ confirmedBy c calls := by
  induction calls generalizing c with
  | nil => exact le_rfl
  | cons call calls ih =>
    rw [confirmedBy_cons]
    refine le_trans ?_ (ih _)
    cases call with
    | queue w => exact le_rfl
    | confirm s => exact le_max_left c s
    | settle => exact le_rfl

/-- A confirmed slot is at most the confirmed slot afterwards. -/
theorem le_confirmedBy_of_mem (c : ℕ) {calls : List (Call κ β)} {s : ℕ}
    (h : .confirm s ∈ calls) : s ≤ confirmedBy c calls := by
  obtain ⟨first, second, rfl⟩ := List.append_of_mem h
  rw [confirmedBy_append, confirmedBy_cons]
  exact (le_max_right _ s).trans (le_confirmedBy _ second)

/-- The confirmed slot afterwards is the first one or was confirmed by a call. -/
theorem confirmedBy_eq_or_mem (c : ℕ) (calls : List (Call κ β)) :
    confirmedBy c calls = c ∨ .confirm (confirmedBy c calls) ∈ calls := by
  induction calls using List.reverseRecOn with
  | nil => exact Or.inl rfl
  | append_singleton calls call ih =>
    rw [confirmedBy_append]
    cases call with
    | queue w => exact ih.imp_right (List.mem_append_left _)
    | settle => exact ih.imp_right (List.mem_append_left _)
    | confirm s =>
      change max _ s = c ∨ Call.confirm (max _ s) ∈ _
      rcases le_total s (confirmedBy c calls) with h | h
      · rw [max_eq_left h]
        exact ih.imp_right (List.mem_append_left _)
      · rw [max_eq_right h]
        exact Or.inr (List.mem_append_right _ List.mem_cons_self)

namespace Staging

/-- Every write the engine has kept. -/
def accepted (st : Staging κ β) : List (Write κ β) := st.applied ++ st.staged

/-- The engine before any call. -/
def empty (floor confirmed : ℕ) : Staging κ β where
  floor := floor
  confirmed := confirmed
  applied := []
  staged := []
  above_floor _ h := absurd h List.not_mem_nil
  applied_le _ h := absurd h List.not_mem_nil

/-- The empty engine over a base state read at slot `c`. -/
def start (c : ℕ) : Staging κ β := empty c c

/-- Stage a write of a slot at or above the floor. -/
def push (st : Staging κ β) (w : Write κ β) (h : st.floor ≤ w.slot) : Staging κ β where
  floor := st.floor
  confirmed := st.confirmed
  applied := st.applied
  staged := st.staged ++ [w]
  above_floor v hv := by
    rw [← List.append_assoc] at hv
    rcases List.mem_append.mp hv with hv | hv
    · exact st.above_floor v hv
    · exact List.mem_singleton.mp hv ▸ h
  applied_le := st.applied_le

/-- Apply everything staged up to slot `s` and take `s` as the confirmed slot. -/
def advance (st : Staging κ β) (s : ℕ) (h : st.confirmed ≤ s) : Staging κ β where
  floor := st.floor
  confirmed := s
  applied := st.applied ++ bySlot Write.slot (st.staged.filter (·.slot ≤ s))
  staged := st.staged.filter (s < ·.slot)
  above_floor w hw := by
    apply st.above_floor w
    simp only [List.mem_append, mem_bySlot, List.mem_filter] at hw ⊢
    tauto
  applied_le w hw := by
    simp only [List.mem_append, mem_bySlot, List.mem_filter, decide_eq_true_eq] at hw
    rcases hw with hw | ⟨-, hw⟩
    · exact (st.applied_le w hw).trans h
    · exact hw

/-- A confirmation acts only when it raises the confirmed slot. -/
def confirm (st : Staging κ β) (s : ℕ) : Staging κ β :=
  if h : st.confirmed < s then st.advance s h.le else st

/-- Apply late writes of slots that are already confirmed. -/
def settle (st : Staging κ β) : Staging κ β := st.advance st.confirmed le_rfl

/-- Stage a write unless it is below the floor. -/
def queue (st : Staging κ β) (w : Write κ β) : Staging κ β :=
  if h : st.floor ≤ w.slot then st.push w h else st

/-- Perform one call. -/
def call (st : Staging κ β) : Call κ β → Staging κ β
  | .queue w => st.queue w
  | .confirm s => st.confirm s
  | .settle => st.settle

/-- Perform calls in order. -/
def run (st : Staging κ β) (calls : List (Call κ β)) : Staging κ β := calls.foldl call st

@[simp] theorem run_nil (st : Staging κ β) : st.run [] = st := rfl

@[simp] theorem run_cons (st : Staging κ β) (c : Call κ β) (calls : List (Call κ β)) :
    st.run (c :: calls) = (st.call c).run calls := rfl

@[simp] theorem run_append (st : Staging κ β) (first second : List (Call κ β)) :
    st.run (first ++ second) = (st.run first).run second :=
  List.foldl_append

@[simp] theorem run_singleton (st : Staging κ β) (c : Call κ β) : st.run [c] = st.call c := rfl

@[simp] theorem floor_confirm (st : Staging κ β) (s : ℕ) : (st.confirm s).floor = st.floor := by
  unfold confirm; split <;> rfl

@[simp] theorem confirmed_confirm (st : Staging κ β) (s : ℕ) :
    (st.confirm s).confirmed = max st.confirmed s := by
  unfold confirm advance
  split
  · next h => exact (max_eq_right h.le).symm
  · next h => exact (max_eq_left (not_lt.mp h)).symm

@[simp] theorem floor_settle (st : Staging κ β) : st.settle.floor = st.floor := rfl

@[simp] theorem confirmed_settle (st : Staging κ β) : st.settle.confirmed = st.confirmed := rfl

@[simp] theorem floor_queue (st : Staging κ β) (w : Write κ β) : (st.queue w).floor = st.floor := by
  unfold queue; split <;> rfl

@[simp] theorem confirmed_queue (st : Staging κ β) (w : Write κ β) :
    (st.queue w).confirmed = st.confirmed := by
  unfold queue; split <;> rfl

/-- No call moves the floor. -/
@[simp] theorem floor_call (st : Staging κ β) (c : Call κ β) : (st.call c).floor = st.floor := by
  cases c with
  | queue w => exact floor_queue st w
  | confirm s => exact floor_confirm st s
  | settle => rfl

/-- A call raises the confirmed slot to the slot it names. -/
@[simp] theorem confirmed_call (st : Staging κ β) (c : Call κ β) :
    (st.call c).confirmed = confirmedBy st.confirmed [c] := by
  cases c with
  | queue w => exact confirmed_queue st w
  | confirm s => exact confirmed_confirm st s
  | settle => rfl

/-- The floor never moves. -/
@[simp] theorem floor_run (st : Staging κ β) (calls : List (Call κ β)) :
    (st.run calls).floor = st.floor := by
  induction calls generalizing st with
  | nil => rfl
  | cons c calls ih => rw [run_cons, ih, floor_call]

/-- The confirmed slot is the largest one confirmed. -/
@[simp] theorem confirmed_run (st : Staging κ β) (calls : List (Call κ β)) :
    (st.run calls).confirmed = confirmedBy st.confirmed calls := by
  induction calls generalizing st with
  | nil => rfl
  | cons c calls ih =>
    rw [run_cons, ih, confirmed_call, ← confirmedBy_append, List.singleton_append]

/-- Advancing neither loses nor invents a write. -/
@[simp] theorem mem_accepted_advance {st : Staging κ β} {s : ℕ} {h : st.confirmed ≤ s}
    {w : Write κ β} : w ∈ (st.advance s h).accepted ↔ w ∈ st.accepted := by
  simp only [accepted, advance, List.mem_append, mem_bySlot, List.mem_filter, decide_eq_true_eq]
  have := le_or_gt w.slot s
  tauto

/-- A call keeps what was kept and stages what it delivers at or above the floor. -/
theorem mem_accepted_call {st : Staging κ β} {c : Call κ β} {w : Write κ β} :
    w ∈ (st.call c).accepted ↔ w ∈ st.accepted ∨ w ∈ delivered [c] ∧ st.floor ≤ w.slot := by
  cases c with
  | queue v =>
    change w ∈ (st.queue v).accepted ↔ w ∈ st.accepted ∨ w ∈ [v] ∧ st.floor ≤ w.slot
    rw [queue, List.mem_singleton]
    split
    · next h =>
      change w ∈ st.applied ++ (st.staged ++ [v]) ↔ _
      rw [← List.append_assoc, List.mem_append, List.mem_singleton]
      refine or_congr_right ⟨fun hw => ⟨hw, hw ▸ h⟩, And.left⟩
    · next h =>
      exact ⟨Or.inl, fun hw => hw.elim id fun hv => (h (hv.1 ▸ hv.2)).elim⟩
  | confirm s =>
    change w ∈ (st.confirm s).accepted ↔ _
    rw [confirm]
    split <;> simp
  | settle =>
    change w ∈ (st.advance st.confirmed le_rfl).accepted ↔ _
    simp

/-- An engine keeps every delivered write at or above the floor. -/
theorem mem_accepted_run {st : Staging κ β} {calls : List (Call κ β)} {w : Write κ β} :
    w ∈ (st.run calls).accepted ↔ w ∈ st.accepted ∨ w ∈ delivered calls ∧ st.floor ≤ w.slot := by
  induction calls generalizing st with
  | nil => simp
  | cons c calls ih =>
    rw [run_cons, ih, mem_accepted_call, floor_call, delivered_cons c calls, List.mem_append]
    tauto

/-- Nothing of a confirmed slot is still staged. -/
def Swept (st : Staging κ β) : Prop := ∀ w ∈ st.staged, st.confirmed < w.slot

/-- Advancing leaves nothing staged up to the new confirmed slot. -/
theorem swept_advance (st : Staging κ β) (s : ℕ) (h : st.confirmed ≤ s) : (st.advance s h).Swept :=
  fun _ hw => of_decide_eq_true (List.mem_filter.mp hw).2

/-- A confirmation that acts leaves nothing staged up to its slot. -/
theorem swept_confirm {st : Staging κ β} {s : ℕ} (h : st.confirmed < s) :
    (st.confirm s).Swept := by
  rw [confirm, dif_pos h]
  exact st.swept_advance s h.le

/-- Settling leaves nothing staged up to the confirmed slot. -/
theorem swept_settle (st : Staging κ β) : st.settle.Swept := st.swept_advance _ le_rfl

/-- A call that delivers no write of a confirmed slot leaves none staged. -/
theorem Swept.call {st : Staging κ β} (h : st.Swept) {c : Call κ β}
    (hc : ∀ w ∈ delivered [c], st.floor ≤ w.slot → st.confirmed < w.slot) : (st.call c).Swept := by
  cases c with
  | queue v =>
    change (st.queue v).Swept
    rw [queue]
    split
    · next hfloor =>
      intro w hw
      rcases List.mem_append.mp hw with hw | hw
      · exact h w hw
      · rw [List.mem_singleton.mp hw]
        exact hc v List.mem_cons_self hfloor
    · exact h
  | confirm s =>
    change (st.confirm s).Swept
    rw [confirm]
    split
    · exact st.swept_advance s _
    · exact h
  | settle => exact st.swept_settle

section Key

variable [DecidableEq κ]

/-- The write that decides a key's value. -/
def latest (st : Staging κ β) (k : κ) : Option (Write κ β) := (ofKey k st.applied).getLast?

/-- The value of a key: its last applied write over the base state. -/
def current {α : Type*} (val : β → Option α) (base : κ → Option α) (st : Staging κ β) (k : κ) :
    Option α :=
  (st.latest k).elim (base k) (fun w => val w.value)

/-- Reading the value of a key through a function. -/
theorem map_current {α γ : Type*} (f : α → γ) (val : β → Option α) (base : κ → Option α)
    (st : Staging κ β) (k : κ) :
    (st.current val base k).map f =
      st.current (fun value => (val value).map f) (fun key => (base key).map f) k := by
  rw [current, current]
  cases st.latest k with
  | none => rfl
  | some w => rfl

/-- Released writes of one key keep their arrival order if they arrive in slot order. -/
theorem ofKey_release {st : Staging κ β} {k : κ}
    (h : (ofKey k st.staged).Pairwise (fun a b => a.slot ≤ b.slot)) (s : ℕ) :
    ofKey k (bySlot Write.slot (st.staged.filter (·.slot ≤ s))) =
      (ofKey k st.staged).filter (·.slot ≤ s) := by
  rw [ofKey, filter_bySlot, ← ofKey, ofKey_filter]
  exact bySlot_eq_self _ (h.sublist List.filter_sublist)

/-- Once nothing confirmed is staged, a key's applied writes are its accepted writes up to
the confirmed slot. -/
theorem Swept.ofKey_applied {st : Staging κ β} (h : st.Swept) (k : κ) :
    ofKey k st.applied = (ofKey k st.accepted).filter (·.slot ≤ st.confirmed) := by
  have happlied : (ofKey k st.applied).filter (·.slot ≤ st.confirmed) = ofKey k st.applied :=
    List.filter_eq_self.mpr fun w hw => by simpa using st.applied_le w (mem_ofKey.mp hw).1
  have hstaged : (ofKey k st.staged).filter (·.slot ≤ st.confirmed) = [] :=
    List.filter_eq_nil_iff.mpr fun w hw => by simpa using h w (mem_ofKey.mp hw).1
  rw [accepted, ofKey_append, List.filter_append, happlied, hstaged, List.append_nil]

end Key

end Staging

end AltCache.Replay
