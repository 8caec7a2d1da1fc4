import AltCache.Replay.Journal

/-!
# Ledgers and their streams

A ledger lists the confirmed slots in order, each with its writes. A subscriber of the
ledger from some slot on receives each slot's writes followed by the slot's confirmation.
A base state read at a slot is handed over to such a stream exactly when no later write is
lost on the way; replaying what was received then yields the ledger's states.
-/

namespace AltCache.Replay

variable {κ α β : Type*}

/-- Two calls arrive in this order on a stream: no write after its slot's confirmation, and
the writes of a key by increasing tag. -/
def Call.Precedes : Call κ β → Call κ β → Prop
  | .queue a, .queue b => a.slot ≤ b.slot ∧ (a.key = b.key → a.tag < b.tag)
  | .queue a, .confirm s => a.slot ≤ s
  | .confirm s, .queue b => s < b.slot
  | .confirm s, .confirm t => s < t
  | .settle, _ => False
  | _, .settle => False

/-- The writes of one slot, those of each key by increasing version. -/
structure Block (κ β : Type*) where
  slot : ℕ
  writes : List (Write κ β)
  of_slot : ∀ w ∈ writes, w.slot = slot
  increasing : writes.Pairwise fun a b => a.key = b.key → a.tag < b.tag

/-- A slot without writes. -/
def Block.empty (slot : ℕ) : Block κ β where
  slot := slot
  writes := []
  of_slot _ h := absurd h List.not_mem_nil
  increasing := List.Pairwise.nil

/-- A slot with one write. -/
def Block.single (w : Write κ β) : Block κ β where
  slot := w.slot
  writes := [w]
  of_slot _ h := congrArg Write.slot (List.mem_singleton.mp h)
  increasing := List.pairwise_singleton _ _

@[simp] theorem Block.writes_empty (slot : ℕ) : (empty slot : Block κ β).writes = [] := rfl

@[simp] theorem Block.writes_single (w : Write κ β) : (single w).writes = [w] := rfl

/-- The confirmed slots in ascending order. -/
structure Ledger (κ β : Type*) where
  blocks : List (Block κ β)
  ascending : blocks.Pairwise fun a b => a.slot < b.slot

/-- What a subscriber receives of one slot. -/
def Block.calls (block : Block κ β) : List (Call κ β) :=
  block.writes.map .queue ++ [.confirm block.slot]

/-- Every call of a block carries the block's slot. -/
theorem Block.mem_calls {block : Block κ β} {call : Call κ β} (h : call ∈ block.calls) :
    (∃ w ∈ block.writes, w.slot = block.slot ∧ call = .queue w) ∨ call = .confirm block.slot := by
  rcases List.mem_append.mp h with h | h
  · obtain ⟨w, hw, rfl⟩ := List.mem_map.mp h
    exact Or.inl ⟨w, hw, block.of_slot w hw, rfl⟩
  · exact Or.inr (List.mem_singleton.mp h)

/-- A block's calls arrive in stream order. -/
theorem Block.pairwise_calls (block : Block κ β) : block.calls.Pairwise Call.Precedes := by
  refine List.pairwise_append.mpr ⟨List.pairwise_map.mpr ?_, List.pairwise_singleton _ _, ?_⟩
  · refine block.increasing.imp_of_mem fun ha hb hab => ⟨?_, hab⟩
    exact ((block.of_slot _ ha).trans (block.of_slot _ hb).symm).le
  · intro call hcall confirm hconfirm
    obtain ⟨w, hw, rfl⟩ := List.mem_map.mp hcall
    rw [List.mem_singleton.mp hconfirm]
    exact (block.of_slot w hw).le

namespace Ledger

/-- A ledger of two slots. -/
def pair (first second : Block κ β) (h : first.slot < second.slot) : Ledger κ β where
  blocks := [first, second]
  ascending := List.pairwise_pair.mpr h

/-- All writes in order. -/
def writes (ledger : Ledger κ β) : List (Write κ β) := ledger.blocks.flatMap Block.writes

@[simp] theorem writes_pair (first second : Block κ β) (h : first.slot < second.slot) :
    (pair first second h).writes = first.writes ++ second.writes := by
  simp [writes, pair]

/-- What a subscriber receives from a slot on. -/
def streamFrom (ledger : Ledger κ β) (a : ℕ) : List (Call κ β) :=
  (ledger.blocks.filter (a ≤ ·.slot)).flatMap Block.calls

variable {ledger : Ledger κ β} {a : ℕ}

/-- The writes of a key have strictly increasing tags. -/
theorem increasing (ledger : Ledger κ β) :
    ledger.writes.Pairwise fun a b => a.key = b.key → a.tag < b.tag := by
  refine List.pairwise_flatMap.mpr ⟨fun block _ => block.increasing, ?_⟩
  refine ledger.ascending.imp fun {first second} hslot v hv w hw _ => ?_
  apply Write.tag_lt_of_slot_lt
  rwa [first.of_slot v hv, second.of_slot w hw]

/-- The ledger's history. -/
def chain (ledger : Ledger κ β) : Chain κ β where
  writes := ledger.writes
  unique a ha b hb hkey htag := by
    by_contra hne
    have hdistinct : ledger.writes.Pairwise fun a b => a.key = b.key → a.tag ≠ b.tag :=
      ledger.increasing.imp fun h hkey => (h hkey).ne
    have : Std.Symm fun a b : Write κ β => a.key = b.key → a.tag ≠ b.tag :=
      ⟨fun _ _ h hk ht => h hk.symm ht.symm⟩
    exact hdistinct.forall ha hb hne hkey htag

/-- A stream is in stream order. -/
theorem pairwise_streamFrom (ledger : Ledger κ β) (a : ℕ) :
    (ledger.streamFrom a).Pairwise Call.Precedes := by
  refine List.pairwise_flatMap.mpr ⟨fun block _ => block.pairwise_calls, ?_⟩
  refine (ledger.ascending.sublist List.filter_sublist).imp fun {first second} hslot v hv w hw => ?_
  rcases Block.mem_calls hv with ⟨x, -, hx, rfl⟩ | rfl <;>
    rcases Block.mem_calls hw with ⟨y, -, hy, rfl⟩ | rfl
  · have hlt : x.slot < y.slot := by omega
    exact ⟨hlt.le, fun _ => Write.tag_lt_of_slot_lt hlt⟩
  · change x.slot ≤ second.slot
    omega
  · change first.slot < y.slot
    omega
  · exact hslot

/-- A stream brings exactly the writes of its slots. -/
theorem queue_mem_streamFrom {w : Write κ β} :
    .queue w ∈ ledger.streamFrom a ↔ w ∈ ledger.writes ∧ a ≤ w.slot := by
  simp only [streamFrom, writes, List.mem_flatMap, List.mem_filter, decide_eq_true_eq]
  constructor
  · rintro ⟨block, ⟨hblock, ha⟩, hw⟩
    rcases Block.mem_calls hw with ⟨v, hv, hslot, hcall⟩ | hcall
    · cases hcall
      exact ⟨⟨block, hblock, hv⟩, hslot ▸ ha⟩
    · cases hcall
  · rintro ⟨⟨block, hblock, hw⟩, ha⟩
    exact ⟨block, ⟨hblock, block.of_slot w hw ▸ ha⟩,
      List.mem_append_left _ (List.mem_map_of_mem hw)⟩

/-- A confirmation on a stream comes after every write up to its slot. -/
theorem lt_of_confirm_mem {first second : List (Call κ β)} {s : ℕ}
    {w : Write κ β} (hstream : ledger.streamFrom a = first ++ second)
    (hs : .confirm s ∈ first) (hw : .queue w ∈ second) : s < w.slot := by
  have hpairwise := ledger.pairwise_streamFrom a
  rw [hstream] at hpairwise
  exact (List.pairwise_append.mp hpairwise).2.2 _ hs _ hw

/-- On a stream an earlier write of a key is older. -/
theorem tag_lt_of_queue_mem {first second : List (Call κ β)} {v w : Write κ β}
    (hstream : ledger.streamFrom a = first ++ second) (hv : .queue v ∈ first)
    (hw : .queue w ∈ second) (hkey : v.key = w.key) : v.tag < w.tag := by
  have hpairwise := ledger.pairwise_streamFrom a
  rw [hstream] at hpairwise
  exact ((List.pairwise_append.mp hpairwise).2.2 _ hv _ hw).2 hkey

/-- The writes of a stretch of a stream are in slot order, those of a key oldest first. -/
theorem pairwise_delivered {lost seen rest : List (Call κ β)}
    (hstream : ledger.streamFrom a = lost ++ (seen ++ rest)) :
    (delivered seen).Pairwise fun v w => v.slot ≤ w.slot ∧ (v.key = w.key → v.tag < w.tag) := by
  have hpairwise := ledger.pairwise_streamFrom a
  rw [hstream] at hpairwise
  have hseen := (List.pairwise_append.mp (List.pairwise_append.mp hpairwise).2.1).1
  refine List.pairwise_filterMap.mpr (hseen.imp fun {first second} h v hv w hw => ?_)
  cases first <;> cases hv
  cases second <;> cases hw
  exact h

/-- Nothing above slot `c` is lost: up to each slot the calls confirm, every such write is
delivered by the calls or superseded by one they deliver. -/
def Covered (ledger : Ledger κ β) (c : ℕ) (calls : List (Call κ β)) : Prop :=
  ∀ s, .confirm s ∈ calls → ∀ w ∈ ledger.writes, c < w.slot → w.slot ≤ s →
    ∃ v ∈ delivered calls, v.key = w.key ∧ w.tag ≤ v.tag ∧ v.slot ≤ s

/-- No key has writes of slot `c` both among the received calls and among those to come. -/
def Whole (c : ℕ) (seen rest : List (Call κ β)) : Prop :=
  ∀ v ∈ delivered seen, v.slot = c → ∀ w ∈ delivered rest, w.key = v.key → w.slot ≠ c

/-- Once a slot above `c` is confirmed, nothing of slot `c` is still to come. -/
theorem whole_of_lt {c : ℕ} {lost seen rest : List (Call κ β)}
    (hstream : ledger.streamFrom a = lost ++ (seen ++ rest)) (h : c < confirmedBy c seen) :
    Whole c seen rest := by
  intro v _ _ w hw _ hslot
  have hmem := (confirmedBy_eq_or_mem c seen).resolve_left h.ne'
  rw [← List.append_assoc] at hstream
  have := lt_of_confirm_mem hstream (List.mem_append_right lost hmem) (mem_delivered.mp hw)
  omega

/-- A base state at slot `c` handed over to a stretch of a stream without a loss becomes the
ledger's state at the slot confirmed by the stretch. -/
theorem handover_exact [DecidableEq κ] {c : ℕ} {lost seen rest : List (Call κ β)}
    (hstream : ledger.streamFrom a = lost ++ (seen ++ rest))
    (hcovered : ledger.Covered c (seen ++ rest))
    (hwhole : Whole c seen rest) {calls : List (Call κ β)}
    (hcalls : delivered calls = delivered seen)
    (hconfirmed : confirmedBy c calls = confirmedBy c seen)
    (hswept : ((Journal.start c).run calls).Swept) {val : β → Option α} {base : κ → Option α} {k : κ}
    (hbase : base k = ledger.chain.stateAt val c k) :
    ((Journal.start c).run calls).current val base k =
      ledger.chain.stateAt val (confirmedBy c seen) k := by
  have hmem {w : Write κ β} (hw : .queue w ∈ seen) : w ∈ ledger.writes ∧ a ≤ w.slot := by
    apply queue_mem_streamFrom.mp
    rw [hstream]
    exact List.mem_append_right _ (List.mem_append_left _ hw)
  refine Journal.current_run_eq_stateAt hswept hconfirmed ?_ hbase le_rfl (le_confirmedBy c seen)
    ?_ ?_ ?_
  · rw [hcalls]
    exact ((pairwise_delivered hstream).filter _).imp fun h hlt => hlt.trans_le h.1
  · intro w hw
    rw [hcalls, mem_delivered] at hw
    exact (hmem hw).1
  · intro w hw hk hc hs
    rw [hcalls]
    have hconfirm := (confirmedBy_eq_or_mem c seen).resolve_left (hc.trans_le hs).ne'
    obtain ⟨v, hv, hvk, htag, hvs⟩ := hcovered _ (List.mem_append_left rest hconfirm) w hw hc hs
    rw [delivered_append] at hv
    rcases List.mem_append.mp hv with hv | hv
    · exact ⟨v, hv, hvk.trans hk, hvs, htag⟩
    · -- a write still to come lies above every confirmed slot
      rw [← List.append_assoc] at hstream
      have := lt_of_confirm_mem hstream (List.mem_append_right lost hconfirm) (mem_delivered.mp hv)
      omega
  · intro v hv hvk hvc w hw hwk hwc
    rw [hcalls] at hv ⊢
    have hstreamed : .queue w ∈ lost ++ (seen ++ rest) := by
      rw [← hstream]
      have := (hmem (mem_delivered.mp hv)).2
      exact queue_mem_streamFrom.mpr ⟨hw, by omega⟩
    rcases List.mem_append.mp hstreamed with hlost | hlater
    · have htag := tag_lt_of_queue_mem hstream hlost
        (List.mem_append_left rest (mem_delivered.mp hv)) (hwk.trans hvk.symm)
      exact ⟨v, hv, hvk, hvc.trans_le (le_confirmedBy c seen), htag.le⟩
    · rcases List.mem_append.mp hlater with hseen | hrest
      · exact ⟨w, mem_delivered.mpr hseen, hwk, hwc.trans_le (le_confirmedBy c seen), le_rfl⟩
      · exact (hwhole v hv hvc w (mem_delivered.mpr hrest) (hwk.trans hvk.symm) hwc).elim

end Ledger

end AltCache.Replay
