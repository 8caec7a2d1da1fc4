import AltCache.Replay.Ledger

/-!
# Reading a ledger through a function

Two parties that make different things of the same writes follow the same ledger: reading every
value through a function commutes with taking the state at a slot.
-/

namespace AltCache.Replay

variable {κ α β γ : Type*}

/-- Read the value of a write through a function. -/
def Write.mapValue (f : β → γ) (w : Write κ β) : Write κ γ := ⟨w.key, w.slot, w.version, f w.value⟩

@[simp] theorem Write.key_mapValue (f : β → γ) (w : Write κ β) : (w.mapValue f).key = w.key := rfl

@[simp] theorem Write.slot_mapValue (f : β → γ) (w : Write κ β) :
    (w.mapValue f).slot = w.slot := rfl

@[simp] theorem Write.tag_mapValue (f : β → γ) (w : Write κ β) : (w.mapValue f).tag = w.tag := rfl

/-- Read the values of a block through a function. -/
def Block.mapValue (f : β → γ) (block : Block κ β) : Block κ γ where
  slot := block.slot
  writes := block.writes.map (Write.mapValue f)
  of_slot w hw := by
    obtain ⟨v, hv, rfl⟩ := List.mem_map.mp hw
    exact block.of_slot v hv
  increasing := List.pairwise_map.mpr block.increasing

namespace Ledger

/-- Read the values of a ledger through a function. -/
def mapValue (f : β → γ) (ledger : Ledger κ β) : Ledger κ γ where
  blocks := ledger.blocks.map (Block.mapValue f)
  ascending := List.pairwise_map.mpr ledger.ascending

variable {ledger : Ledger κ β} {f : β → γ}

/-- The writes are those of the ledger, read through the function. -/
theorem writes_mapValue : (ledger.mapValue f).writes = ledger.writes.map (Write.mapValue f) := by
  simp only [writes, mapValue, List.flatMap_map, List.map_flatMap]
  rfl

variable [DecidableEq κ]

/-- The newest write of a key up to a slot is read through the function. -/
theorem newestAt_mapValue (ledger : Ledger κ β) (f : β → γ) (s : ℕ) (k : κ) :
    (ledger.mapValue f).chain.newestAt s k =
      (ledger.chain.newestAt s k).map (Write.mapValue f) := by
  have hmem {w : Write κ γ} (hw : w ∈ (ledger.mapValue f).chain.writes) :
      ∃ v ∈ ledger.writes, v.mapValue f = w := by
    rw [show (ledger.mapValue f).chain.writes = _ from writes_mapValue] at hw
    exact List.mem_map.mp hw
  cases hnewest : ledger.chain.newestAt s k with
  | none =>
    refine newest_eq_none.mpr fun w hw hkey => ?_
    obtain ⟨hw, hslot⟩ := List.mem_filter.mp hw
    obtain ⟨v, hv, rfl⟩ := hmem hw
    exact newest_eq_none.mp hnewest v (List.mem_filter.mpr ⟨hv, hslot⟩) hkey
  | some v =>
    obtain ⟨hv, hkey, hmax⟩ := newest_eq_some hnewest
    obtain ⟨hv, hslot⟩ := List.mem_filter.mp hv
    refine Chain.newestAt_eq_some ?_ hkey (of_decide_eq_true hslot) fun w hw hwkey hwslot => ?_
    · rw [show (ledger.mapValue f).chain.writes = _ from writes_mapValue]
      exact List.mem_map_of_mem hv
    · obtain ⟨u, hu, rfl⟩ := hmem hw
      exact hmax u (List.mem_filter.mpr ⟨hu, decide_eq_true hwslot⟩) hwkey

/-- So is the state at a slot. -/
theorem stateAt_mapValue (ledger : Ledger κ β) (f : β → γ) (val : γ → Option α) (s : ℕ) (k : κ) :
    (ledger.mapValue f).chain.stateAt val s k =
      ledger.chain.stateAt (fun value => val (f value)) s k := by
  rw [Chain.stateAt, newestAt_mapValue, Option.bind_map]
  rfl

end Ledger

end AltCache.Replay
