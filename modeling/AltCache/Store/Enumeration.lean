import AltCache.Store.Runs

/-!
# Following cursors to the end

A client that takes a first page and follows its cursors asks for one page after another,
with a limit of its own for each, while other operations happen in between. As long as the
published slots do not fall and the retained snapshot does not expire, its pages are the
snapshot served at the first request, in key order and cut at the limits.
-/

namespace AltCache.Store

open Std (ExtTreeMap)

/-- A client's request for a page, after operations of others. -/
structure Round where
  others : List Op
  now : ℕ
  limit : ℕ

/-- Ask for a page and follow its cursor, one request a round, until no page is left. -/
def pages (store : Store) (snapshotSlot : Option ℕ) (after : Option Key) :
    List Round → Except String (List SnapshotPage)
  | [] => .ok []
  | round :: rounds =>
    match (store.performAll round.others).snapshotPage round.now snapshotSlot after round.limit with
    | (.error error, _) => .error error
    | (.ok page, store) =>
      match page.next with
      | none => .ok [page]
      | some key => (store.pages (some page.slot) (some key) rounds).map (page :: ·)

/-- When a continuation is requested, what is retained under a slot has not expired. -/
def Op.Keeps (slot : ℕ) (store : Store) : Op → Prop
  | .snapshotPage now (some _) _ _ => ∀ entry, store.retained[slot]? = some entry → entry.Fresh now
  | _ => True

/-- Operations of an ascending run that find what is retained under a slot unexpired. -/
def Undisturbed (slot : ℕ) (store : Store) : List Op → Prop
  | [] => True
  | op :: ops => op.Ascends store ∧ op.Keeps slot store ∧ Undisturbed slot (store.perform op) ops

/-- The rounds of a client that pages a slot: the others' operations leave the slot
undisturbed, and each of its requests has a proper limit and finds the store ready and the
retained snapshot unexpired. -/
def Steady (slot : ℕ) (store : Store) (snapshotSlot : Option ℕ) (after : Option Key) :
    List Round → Prop
  | [] => True
  | round :: rounds =>
    let before := store.performAll round.others
    Undisturbed slot store round.others ∧ before.ready = true ∧
      0 < round.limit ∧ round.limit + 1 < usizeCount ∧
      (Op.snapshotPage round.now snapshotSlot after round.limit).Keeps slot before ∧
      ∀ page key, (before.snapshotPage round.now snapshotSlot after round.limit).1 = .ok page →
        page.next = some key →
        Steady slot (before.snapshotPage round.now snapshotSlot after round.limit).2
          (some page.slot) (some key) rounds

/-- Pages cut entries at limits: all of the slot, each page but the last as long as its limit,
the accounts those of the entries in order, and nothing left after the last. -/
structure Enumerates (slot : ℕ) (entries : List (Key × Account)) (limits : List ℕ)
    (served : List SnapshotPage) : Prop where
  slot : ∀ page ∈ served, page.slot = slot
  lengths : served.dropLast.map (·.accounts.length) = limits.take served.dropLast.length
  accounts : served.flatMap SnapshotPage.accounts = entries.map Prod.snd
  finished : served.getLast?.map SnapshotPage.next = some none

section Order

variable {α : Type*} {r : α → α → Prop} [DecidableRel r]

/-- In an ordered list the elements above one of them are those after it. -/
theorem filter_eq_drop_of_pairwise {l : List α} (h : l.Pairwise r)
    (hasymm : ∀ a b, r a b → ¬ r b a) {i : ℕ} {x : α} (hx : l[i]? = some x) :
    l.filter (r x ·) = l.drop (i + 1) := by
  induction l generalizing i with
  | nil => simp at hx
  | cons a l ih =>
    obtain ⟨ha, hl⟩ := List.pairwise_cons.mp h
    cases i with
    | zero =>
      obtain rfl := Option.some.inj hx
      have hself : ¬ r a a := fun hr => hasymm a a hr hr
      rw [List.filter_cons_of_neg (by simpa using hself), List.drop_one, List.tail_cons]
      exact List.filter_eq_self.mpr fun b hb => decide_eq_true (ha b hb)
    | succ i =>
      have hbelow : ¬ r x a := hasymm a x (ha x (List.mem_of_getElem? hx))
      rw [List.filter_cons_of_neg (by simpa using hbelow), List.drop_succ_cons]
      exact ih hl hx

end Order

section Cut

variable {accounts : Accounts} {after : Option Key} {limit : ℕ} {key : Key}

/-- The entries after a cursor are in strictly ascending key order. -/
theorem entriesAfter_pairwise (accounts : Accounts) (after : Option Key) :
    (entriesAfter accounts after).Pairwise fun a b => compare a.1 b.1 = .lt :=
  ExtTreeMap.ordered_keys_toList.filter _

/-- The entries of the whole snapshot. -/
@[simp] theorem entriesAfter_none (accounts : Accounts) :
    entriesAfter accounts none = accounts.toList := by
  simp [entriesAfter]

/-- The cursor after a page: the key of its last entry, if entries are left. -/
theorem cutPage_next (accounts : Accounts) (after : Option Key) (hmax : limit + 1 < usizeCount) :
    (cutPage accounts after limit).2 =
      if limit < (entriesAfter accounts after).length then
        (entriesAfter accounts after)[limit - 1]?.map Prod.fst
      else none := by
  have hadd : usizeAdd limit 1 = limit + 1 := Nat.mod_eq_of_lt hmax
  unfold cutPage
  dsimp only
  rw [hadd, List.length_take]
  by_cases hleft : limit < (entriesAfter accounts after).length
  · rw [if_pos (by omega), if_pos hleft, List.getElem?_take_of_lt (by omega)]
  · rw [if_neg (by omega), if_neg hleft]

/-- The entries after the cursor of a page are those the page left. -/
theorem entriesAfter_next (hlimit : 0 < limit) (hmax : limit + 1 < usizeCount)
    (hnext : (cutPage accounts after limit).2 = some key) :
    limit < (entriesAfter accounts after).length ∧
      key ∈ (entriesAfter accounts after).map Prod.fst ∧
      entriesAfter accounts (some key) = (entriesAfter accounts after).drop limit := by
  rw [cutPage_next accounts after hmax] at hnext
  split at hnext
  · next hleft =>
    obtain ⟨entry, hentry, rfl⟩ := Option.map_eq_some_iff.mp hnext
    refine ⟨hleft, List.mem_map_of_mem (List.mem_of_getElem? hentry), ?_⟩
    have hdrop := filter_eq_drop_of_pairwise (entriesAfter_pairwise accounts after)
      (fun a b hab => Std.OrientedCmp.not_lt_of_lt hab) hentry
    rw [Nat.sub_add_cancel hlimit] at hdrop
    have hmem := (List.mem_filter.mp (List.mem_of_getElem? hentry)).2
    rw [← hdrop, entriesAfter, entriesAfter, List.filter_filter]
    apply List.filter_congr
    intro other _
    by_cases habove : compare entry.1 other.1 = .lt
    · cases after with
      | none => simp [habove]
      | some lower =>
        have hlower : compare lower entry.1 = .lt := of_decide_eq_true hmem
        simp [habove, Std.TransCmp.lt_trans hlower habove]
    · simp [habove]
  · cases hnext

/-- A page without a cursor has all the entries that were left. -/
theorem cutPage_last (hmax : limit + 1 < usizeCount)
    (hnext : (cutPage accounts after limit).2 = none) :
    (cutPage accounts after limit).1 = entriesAfter accounts after := by
  rw [cutPage_entries accounts after hmax]
  rw [cutPage_next accounts after hmax] at hnext
  refine List.take_of_length_le (not_lt.mp fun hleft => ?_)
  rw [if_pos hleft, List.getElem?_eq_getElem (by omega)] at hnext
  cases hnext

end Cut

section Round

variable {store : Store} {snapshot : ServerSnapshot} {slot now limit : ℕ}
  {snapshotSlot : Option ℕ} {after : Option Key}

/-- A ready store serves the page cut from its source. -/
theorem snapshotPage_of_pageSource (hready : store.ready = true) (hlimit : 0 < limit)
    (hsource : (pageSource now store snapshotSlot).1 = .ok snapshot) (after : Option Key) :
    (store.snapshotPage now snapshotSlot after limit).1 =
      .ok ⟨snapshot.slot, (cutPage snapshot.accounts after limit).1.map Prod.snd,
        (cutPage snapshot.accounts after limit).2⟩ := by
  unfold snapshotPage
  rw [if_neg hlimit.ne', if_neg (by simp [hready])]
  rcases hresult : pageSource now store snapshotSlot with ⟨error | found, renewed⟩
  · rw [hresult] at hsource
    cases hsource
  · rw [hresult] at hsource
    obtain rfl := Except.ok.inj hsource
    rfl

/-- A page with a cursor leaves its slot retained. -/
theorem isSome_retained_of_next {page : SnapshotPage} {key : Key}
    (hpage : (store.snapshotPage now snapshotSlot after limit).1 = .ok page)
    (hnext : page.next = some key) :
    (store.snapshotPage now snapshotSlot after limit).2.retained[page.slot]?.isSome := by
  obtain ⟨snapshot, -, rfl, hstore⟩ := snapshotPage_ok hpage
  rw [hstore, if_pos (by rw [hnext]; rfl), getElem?_retain]
  simp

/-- An unexpired retained snapshot is the source of a continuation. -/
theorem pageSource_of_fresh {entry : RetainedSnapshot} (hentry : store.retained[slot]? = some entry)
    (hfresh : entry.Fresh now) : (pageSource now store (some slot)).1 = .ok entry.snapshot := by
  have hkept : (unexpired now store.retained)[slot]? = some entry := by
    rw [unexpired, ExtTreeMap.getElem?_filter', hentry]
    exact Option.filter_some_pos (decide_eq_true hfresh)
  unfold pageSource
  dsimp only
  rw [hkept]

/-- An operation that finds a retained snapshot unexpired leaves it retained. -/
theorem isSome_retained_perform {op : Op} (hkeeps : op.Keeps slot store)
    (h : store.retained[slot]?.isSome) : (store.perform op).retained[slot]?.isSome := by
  cases op with
  | publish url slot accounts => exact h
  | invalidate => exact h
  | snapshotPage now snapshotSlot after limit =>
    have hsource : (pageSource now store snapshotSlot).2.retained[slot]?.isSome := by
      cases snapshotSlot with
      | none => exact h
      | some requested =>
        obtain ⟨entry, hentry⟩ := Option.isSome_iff_exists.mp h
        have hfresh : entry.Fresh now := hkeeps entry hentry
        rw [getElem?_pageSource, hentry, Option.filter_some_pos (by simpa using hfresh)]
        rfl
    change (store.snapshotPage now snapshotSlot after limit).2.retained[slot]?.isSome
    cases hpage : (store.snapshotPage now snapshotSlot after limit).1 with
    | error error =>
      rcases snapshotPage_error hpage with hstore | hstore
      · exact hstore.symm ▸ h
      · exact hstore.symm ▸ hsource
    | ok page =>
      obtain ⟨snapshot, -, -, hstore⟩ := snapshotPage_ok hpage
      rw [hstore]
      split
      · rw [getElem?_retain]
        simp [hsource]
      · exact hsource

/-- Undisturbed, a snapshot stays pinned and retained. -/
theorem Undisturbed.performAll {ops : List Op} (h : Undisturbed snapshot.slot store ops)
    (hpins : Pins snapshot store) (hretained : store.retained[snapshot.slot]?.isSome) :
    Pins snapshot (store.performAll ops) ∧
      (store.performAll ops).retained[snapshot.slot]?.isSome := by
  induction ops generalizing store with
  | nil => exact ⟨hpins, hretained⟩
  | cons op ops ih =>
    obtain ⟨hascends, hkeeps, hrest⟩ := h
    exact ih hrest (hpins.perform hascends) (isSome_retained_perform hkeeps hretained)

/-- A last page enumerates the entries that were left. -/
theorem Enumerates.last {entries : List (Key × Account)} (limits : List ℕ) :
    Enumerates slot entries limits [⟨slot, entries.map Prod.snd, none⟩] where
  slot page hpage := by rw [List.mem_singleton.mp hpage]
  lengths := rfl
  accounts := List.flatMap_singleton ..
  finished := rfl

/-- A page followed by pages that enumerate what it left enumerates all. -/
theorem Enumerates.cons {entries : List (Key × Account)} {limits : List ℕ}
    {served : List SnapshotPage} (h : Enumerates slot (entries.drop limit) limits served)
    (hleft : limit < entries.length) (next : Option Key) :
    Enumerates slot entries (limit :: limits)
      (⟨slot, (entries.take limit).map Prod.snd, next⟩ :: served) := by
  have hne : served ≠ [] := fun hnil => by
    have hfinished := h.finished
    rw [hnil] at hfinished
    cases hfinished
  refine ⟨fun page hpage => ?_, ?_, ?_, ?_⟩
  · rcases List.mem_cons.mp hpage with rfl | hpage
    · rfl
    · exact h.slot page hpage
  · rw [List.dropLast_cons_of_ne_nil hne, List.map_cons, List.length_cons, List.take_succ_cons,
      h.lengths, List.length_map, List.length_take_of_le hleft.le]
  · rw [List.flatMap_cons, h.accounts, ← List.map_append, List.take_append_drop]
  · rw [List.getLast?_cons_of_ne_nil hne, h.finished]

/-- A page without a cursor is the last one. -/
theorem pages_of_last {round : Round} {page : SnapshotPage} (rounds : List Round)
    (hpage : ((store.performAll round.others).snapshotPage round.now snapshotSlot after
      round.limit).1 = .ok page) (hnext : page.next = none) :
    store.pages snapshotSlot after (round :: rounds) = .ok [page] := by
  rw [pages]
  rcases hresult : (store.performAll round.others).snapshotPage round.now snapshotSlot after
    round.limit with ⟨error | served, rest⟩
  · rw [hresult] at hpage
    cases hpage
  · rw [hresult] at hpage
    obtain rfl := Except.ok.inj hpage
    simp only [hnext]

/-- A page with a cursor is followed by what the cursor yields. -/
theorem pages_of_next {round : Round} {page : SnapshotPage} {key : Key} {rounds : List Round}
    {served : List SnapshotPage}
    (hpage : ((store.performAll round.others).snapshotPage round.now snapshotSlot after
      round.limit).1 = .ok page) (hnext : page.next = some key)
    (hserved : ((store.performAll round.others).snapshotPage round.now snapshotSlot after
      round.limit).2.pages (some page.slot) (some key) rounds = .ok served) :
    store.pages snapshotSlot after (round :: rounds) = .ok (page :: served) := by
  rw [pages]
  rcases hresult : (store.performAll round.others).snapshotPage round.now snapshotSlot after
    round.limit with ⟨error | found, rest⟩
  · rw [hresult] at hpage
    cases hpage
  · rw [hresult] at hpage hserved
    obtain rfl := Except.ok.inj hpage
    simp only [hnext, hserved]
    rfl

/-- The next request of a client is served from a snapshot that is pinned. -/
def ServedFrom (snapshot : ServerSnapshot) (store : Store) (snapshotSlot : Option ℕ) :
    List Round → Prop
  | [] => True
  | round :: _ => Pins snapshot (store.performAll round.others) ∧
    (pageSource round.now (store.performAll round.others) snapshotSlot).1 = .ok snapshot

/-- A request that is served from a pinned snapshot gets all that is left of it, or as much as
its limit and a cursor to the rest, which the next request is served from. -/
theorem Steady.serve {rounds : List Round} {round : Round}
    (h : Steady snapshot.slot store snapshotSlot after (round :: rounds))
    (hserves : ServedFrom snapshot store snapshotSlot (round :: rounds)) :
    ((store.performAll round.others).snapshotPage round.now snapshotSlot after round.limit).1 =
        .ok ⟨snapshot.slot, (entriesAfter snapshot.accounts after).map Prod.snd, none⟩ ∨
      ∃ key, ((store.performAll round.others).snapshotPage round.now snapshotSlot after
          round.limit).1 =
          .ok ⟨snapshot.slot, ((entriesAfter snapshot.accounts after).take round.limit).map
            Prod.snd, some key⟩ ∧
        round.limit < (entriesAfter snapshot.accounts after).length ∧
        key ∈ (entriesAfter snapshot.accounts after).map Prod.fst ∧
        entriesAfter snapshot.accounts (some key) =
          (entriesAfter snapshot.accounts after).drop round.limit ∧
        Steady snapshot.slot ((store.performAll round.others).snapshotPage round.now snapshotSlot
          after round.limit).2 (some snapshot.slot) (some key) rounds ∧
        ServedFrom snapshot ((store.performAll round.others).snapshotPage round.now snapshotSlot
          after round.limit).2 (some snapshot.slot) rounds := by
  obtain ⟨-, hready, hlimit, hmax, -, hrest⟩ := h
  obtain ⟨hpins, hsource⟩ := hserves
  have hpage := snapshotPage_of_pageSource hready hlimit hsource after
  cases hnext : (cutPage snapshot.accounts after round.limit).2 with
  | none =>
    rw [cutPage_last hmax hnext, hnext] at hpage
    exact Or.inl hpage
  | some key =>
    obtain ⟨hleft, hkey, hafter⟩ := entriesAfter_next hlimit hmax hnext
    rw [cutPage_entries snapshot.accounts after hmax, hnext] at hpage
    have hsteady := hrest _ key hpage rfl
    refine Or.inr ⟨key, hpage, hleft, hkey, hafter, hsteady, ?_⟩
    cases rounds with
    | nil => trivial
    | cons next rounds =>
      obtain ⟨hpinned, hretained⟩ := hsteady.1.performAll (hpins.snapshotPage ..)
        (isSome_retained_of_next hpage rfl)
      obtain ⟨entry, hentry⟩ := Option.isSome_iff_exists.mp hretained
      have hcontinued := pageSource_of_fresh hentry (hsteady.2.2.2.2.1 entry hentry)
      rw [hpinned.retained entry hentry] at hcontinued
      exact ⟨hpinned, hcontinued⟩

/-- Following cursors enumerates what is left of a pinned snapshot, if the limits add up to
enough. -/
theorem pages_enumerate {rounds : List Round} (hrounds : rounds ≠ [])
    (hsteady : Steady snapshot.slot store snapshotSlot after rounds)
    (hserves : ServedFrom snapshot store snapshotSlot rounds)
    (hlong : (entriesAfter snapshot.accounts after).length ≤ (rounds.map Round.limit).sum) :
    ∃ served, store.pages snapshotSlot after rounds = .ok served ∧
      Enumerates snapshot.slot (entriesAfter snapshot.accounts after) (rounds.map Round.limit)
        served := by
  induction rounds generalizing store snapshotSlot after with
  | nil => exact absurd rfl hrounds
  | cons round rounds ih =>
    rw [List.map_cons, List.sum_cons] at hlong
    rcases hsteady.serve hserves with hpage | ⟨key, hpage, hleft, -, hafter, hrest, hnext⟩
    · exact ⟨_, pages_of_last rounds hpage rfl, .last _⟩
    · have hmore : rounds ≠ [] := by
        rintro rfl
        rw [List.map_nil, List.sum_nil] at hlong
        omega
      have hshort : (entriesAfter snapshot.accounts (some key)).length ≤
          (rounds.map Round.limit).sum := by
        rw [hafter, List.length_drop]
        omega
      obtain ⟨served, hserved, henumerates⟩ := ih hmore hrest hnext hshort
      exact ⟨_, pages_of_next hpage rfl hserved, (hafter ▸ henumerates).cons hleft (some key)⟩

/-- Following cursors enumerates the snapshot: in an ascending run, a client that takes a first
page of the served snapshot and follows its cursors, while the retained snapshot does not
expire, gets all of what a reader would have captured at the first request, and is done when
its limits add up to the size of that. -/
theorem cursors_enumerate (h : Ascending store) {rounds : List Round}
    (hsteady : Steady store.current.slot store none none (⟨[], now, limit⟩ :: rounds))
    (hlong : store.current.accounts.size ≤ limit + (rounds.map Round.limit).sum) :
    ∃ read served, store.readSnapshot = .ok read ∧
      store.pages none none (⟨[], now, limit⟩ :: rounds) = .ok served ∧
      Enumerates read.slot read.accounts.toList (limit :: rounds.map Round.limit) served ∧
      read.accounts.toList.Pairwise fun a b => compare a.1 b.1 = .lt := by
  have hready : store.ready = true := hsteady.2.1
  obtain ⟨served, hserved, henumerates⟩ := pages_enumerate (List.cons_ne_nil _ _) hsteady
    ⟨h.pins, rfl⟩ (by simpa [ExtTreeMap.length_toList] using hlong)
  rw [entriesAfter_none] at henumerates
  exact ⟨⟨store.current.slot, store.current.accounts⟩, served, if_pos hready, hserved, henumerates,
    ExtTreeMap.ordered_keys_toList⟩

end Round

/-- Three tables are served in slot 10. -/
def threeTables : Store :=
  Store.new.perform (.publish "rpc" 10 (sampleAccounts [.filled 3, .filled 1, .filled 2]))

/-- A page of two, then slot 11 is published, then a page of one. -/
def threeTableRounds : List Round := [⟨[], 0, 2⟩, ⟨[.publish "rpc" 11 ∅], 1, 1⟩]

/-- The two pages are the three tables. -/
theorem threeTables_enumerate :
    ∃ read served, threeTables.readSnapshot = .ok read ∧
      threeTables.pages none none threeTableRounds = .ok served ∧
      Enumerates read.slot read.accounts.toList [2, 1] served ∧
      read.accounts.toList.Pairwise fun a b => compare a.1 b.1 = .lt := by
  have hascends : (Op.publish "rpc" 10 (sampleAccounts [.filled 3, .filled 1,
      .filled 2])).Ascends .new := ⟨by decide, by decide⟩
  have hsize : threeTables.current.accounts.size ≤ 2 + 1 := by decide +kernel
  refine cursors_enumerate (.perform .new hascends) ⟨trivial, rfl, by decide, by decide, trivial,
    fun page key hpage hnext => ?_⟩ hsize
  have hfirst : (threeTables.snapshotPage 0 none none 2).1 = .ok ⟨10,
      [.sample (.filled 1), .sample (.filled 2)], some (.filled 2)⟩ := by decide +kernel
  obtain rfl := Except.ok.inj (hfirst.symm.trans hpage)
  have hslot : (threeTables.snapshotPage 0 none none 2).2.current.slot ≤ 11 := by decide +kernel
  have hready : ((threeTables.snapshotPage 0 none none 2).2.perform
      (.publish "rpc" 11 ∅)).ready = true := rfl
  have hfresh : ((threeTables.snapshotPage 0 none none 2).2.retained[10]?.all fun entry =>
      decide (entry.Fresh 1)) = true := by decide +kernel
  exact ⟨⟨⟨by decide, hslot⟩, trivial, trivial⟩, hready, by decide, by decide,
    fun entry hentry => of_decide_eq_true ((Option.all_eq_true _ _).mp hfresh entry hentry),
    fun _ _ _ _ => trivial⟩

end AltCache.Store
