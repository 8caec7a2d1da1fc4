import AltCache.AltStateFetcher
import AltCache.Dialogue

/-!
# The end of a fetch

The page loop as a dialogue with an RPC that may answer anything, as long as its pagination
keys are some of a finite set. The loop never follows a key twice, so the keys it has not seen
are its budget.
-/

namespace AltCache.AltStateFetcher

open Dialogue (Asker)

/-- An RPC answers with all the requests in view, the newest first. -/
abbrev Rpc := List ProgramAccountsConfig → Except String ContextResponse

/-- The page loop as the asking side of a dialogue. -/
def pageLoop (codecs : Codecs) (deserialize : Deserialize) (minimumContextSlot : Option ℕ) :
    Asker Progress ProgramAccountsConfig (Except String ContextResponse)
      (Except String FetchedAltState) where
  ask := Progress.request minimumContextSlot
  take progress reply :=
    match reply with
    | .error error => .inl (.error error)
    | .ok response =>
      match progress.receive codecs deserialize minimumContextSlot response with
      | .error error => .inl (.error error)
      | .ok (.inl fetched) => .inl (.ok fetched)
      | .ok (.inr next) => .inr next

/-- The requests of the page loop with their replies, for at most some rounds. -/
def exchanges (codecs : Codecs) (deserialize : Deserialize) (minimumContextSlot : Option ℕ)
    (rpc : Rpc) (rounds : ℕ) : List (ProgramAccountsConfig × Except String ContextResponse) :=
  (pageLoop codecs deserialize minimumContextSlot).transcript rpc rounds [] .new

/-- A reply's pagination key, if it is a page that has one, is one of some keys. -/
def KeyFrom (keys : Finset String) (reply : Except String ContextResponse) : Prop :=
  ∀ page text, reply = .ok page → page.value.paginationKey = some text → text ∈ keys

/-- The pages that take the loop from where it is to a fetched state: all but the last have a
key, none of them was seen before or comes twice, and no page is too old. -/
structure Consumed (minimumContextSlot : Option ℕ) (progress : Progress)
    (fetched : FetchedAltState) (pages : List ContextResponse) (texts : List String) : Prop where
  keys : pages.map (·.value.paginationKey) = texts.map some ++ [none]
  distinct : texts.Nodup
  fresh : ∀ text ∈ texts, text ∉ progress.seen
  first : ∀ page ∈ pages.head?, fetched.contextSlot = progress.contextSlot.getD page.slot
  slots : ∀ page ∈ pages, minimumContextSlot.getD 0 ≤ page.slot ∧ fetched.contextSlot ≤ page.slot

section Loop

variable {codecs : Codecs} {deserialize : Deserialize} {minimumContextSlot : Option ℕ}
  {progress next : Progress} {reply : Except String ContextResponse}
  {replies : List (Except String ContextResponse)} {fetched : FetchedAltState}

/-- The outcome of the fetch is the result of the dialogue. -/
theorem fetchFullAltState_eq_result :
    fetchFullAltState codecs deserialize minimumContextSlot progress replies =
      (pageLoop codecs deserialize minimumContextSlot).result progress replies := by
  induction replies generalizing progress with
  | nil => rfl
  | cons reply replies ih =>
    rw [fetchFullAltState.eq_def, Asker.result]
    cases reply with
    | error error => rfl
    | ok response =>
      dsimp only [pageLoop]
      rcases progress.receive codecs deserialize minimumContextSlot response with
        error | fetched | next
      · rfl
      · rfl
      · exact ih

/-- The loop ends well with a reply that it takes as the last. -/
theorem pageLoop_take_last
    (h : (pageLoop codecs deserialize minimumContextSlot).take progress reply =
      .inl (.ok fetched)) :
    ∃ response, reply = .ok response ∧
      progress.receive codecs deserialize minimumContextSlot response = .ok (.inl fetched) := by
  cases reply with
  | error error => cases h
  | ok response =>
    refine ⟨response, rfl, ?_⟩
    dsimp only [pageLoop] at h
    split at h
    · cases h
    · next last hreceive =>
      obtain rfl := Except.ok.inj (Sum.inl.inj h)
      exact hreceive
    · cases h

/-- It goes on with a reply that it takes as a page to continue from. -/
theorem pageLoop_take_next
    (h : (pageLoop codecs deserialize minimumContextSlot).take progress reply = .inr next) :
    ∃ response, reply = .ok response ∧
      progress.receive codecs deserialize minimumContextSlot response = .ok (.inr next) := by
  cases reply with
  | error error => cases h
  | ok response =>
    refine ⟨response, rfl, ?_⟩
    dsimp only [pageLoop] at h
    split at h
    · cases h
    · cases h
    · next hreceive =>
      obtain rfl := Sum.inr.inj h
      exact hreceive

/-- The keys that were not seen yet are the budget of the loop. -/
def unseen (codecs : Codecs) (deserialize : Deserialize) (minimumContextSlot : Option ℕ)
    (keys : Finset String) :
    (pageLoop codecs deserialize minimumContextSlot).Budget (KeyFrom keys) where
  Valid progress := progress.seen.Nodup ∧ ∀ text ∈ progress.seen, text ∈ keys
  left progress := keys.card - progress.seen.length
  spend {progress next reply} hvalid hreply htake := by
    obtain ⟨response, hresponse, hreceive⟩ := pageLoop_take_next htake
    obtain ⟨-, -, accounts, -, ⟨-, hlast⟩ | ⟨text, htext, hfresh, hnext⟩⟩ := receive_ok hreceive
    · cases hlast
    · obtain rfl := Sum.inr.inj hnext
      have hkey : text ∈ keys := hreply response text hresponse htext
      have hdistinct : (text :: progress.seen).Nodup := List.nodup_cons.mpr ⟨hfresh, hvalid.1⟩
      have hsubset : ∀ seen ∈ text :: progress.seen, seen ∈ keys := by
        intro seen hseen
        rcases List.mem_cons.mp hseen with rfl | hold
        · exact hkey
        · exact hvalid.2 seen hold
      have hlength : (text :: progress.seen).length ≤ keys.card := by
        rw [← List.toFinset_card_of_nodup hdistinct]
        apply Finset.card_le_card
        intro seen hseen
        exact hsubset seen (List.mem_toFinset.mp hseen)
      refine ⟨⟨hdistinct, hsubset⟩, ?_⟩
      rw [List.length_cons] at hlength ⊢
      omega

/-- The last page is the only one that has no key. -/
theorem consumed_last {response : ContextResponse}
    (h : progress.receive codecs deserialize minimumContextSlot response = .ok (.inl fetched)) :
    Consumed minimumContextSlot progress fetched [response] [] := by
  obtain ⟨hminimum, hfirst, accounts, -, ⟨hlast, hfetched⟩ | ⟨text, -, -, hnext⟩⟩ := receive_ok h
  · obtain rfl := Sum.inl.inj hfetched
    constructor
    · rw [List.map_singleton, hlast]
      rfl
    · exact List.nodup_nil
    · intro text htext
      exact absurd htext List.not_mem_nil
    · intro page hpage
      obtain rfl := Option.some.inj hpage
      rfl
    · intro page hpage
      obtain rfl := List.mem_singleton.mp hpage
      exact ⟨hminimum, hfirst⟩
  · cases hnext

/-- A page before it has a key that was not seen and that does not come again. -/
theorem Consumed.cons {response : ContextResponse} {pages : List ContextResponse}
    {texts : List String} (h : Consumed minimumContextSlot next fetched pages texts)
    (hreceive : progress.receive codecs deserialize minimumContextSlot response =
      .ok (.inr next)) :
    ∃ text, Consumed minimumContextSlot progress fetched (response :: pages) (text :: texts) := by
  obtain ⟨hminimum, hfirst, accounts, -, ⟨-, hlast⟩ | ⟨text, htext, hfresh, hnext⟩⟩ :=
    receive_ok hreceive
  · cases hlast
  · obtain rfl := Sum.inr.inj hnext
    have hslot : fetched.contextSlot = progress.contextSlot.getD response.slot := by
      cases pages with
      | nil => exact absurd h.keys (by simp)
      | cons page pages => exact h.first page rfl
    refine ⟨text, ?_, ?_, ?_, ?_, ?_⟩
    · rw [List.map_cons, h.keys, htext]
      rfl
    · apply List.nodup_cons.mpr
      exact ⟨fun hagain => h.fresh text hagain List.mem_cons_self, h.distinct⟩
    · intro seen hseen
      rcases List.mem_cons.mp hseen with rfl | hlater
      · exact hfresh
      · exact fun hold => h.fresh seen hlater (List.mem_cons_of_mem _ hold)
    · intro page hpage
      obtain rfl := Option.some.inj hpage
      exact hslot
    · intro page hpage
      rcases List.mem_cons.mp hpage with rfl | hlater
      · exact ⟨hminimum, hslot ▸ hfirst⟩
      · exact h.slots page hlater

/-- A loop that ends well has taken pages only, up to the first without a key. -/
theorem consumed_of_ends
    (h : (pageLoop codecs deserialize minimumContextSlot).Ends progress replies (.ok fetched)) :
    ∃ pages texts, replies = pages.map .ok ∧
      Consumed minimumContextSlot progress fetched pages texts := by
  generalize houtcome : (.ok fetched : Except String FetchedAltState) = outcome at h
  induction h with
  | last htake =>
    subst houtcome
    obtain ⟨response, rfl, hreceive⟩ := pageLoop_take_last htake
    exact ⟨[response], [], rfl, consumed_last hreceive⟩
  | next htake _ ih =>
    obtain ⟨response, rfl, hreceive⟩ := pageLoop_take_next htake
    obtain ⟨pages, texts, rfl, hconsumed⟩ := ih houtcome
    obtain ⟨text, hall⟩ := hconsumed.cons hreceive
    exact ⟨response :: pages, text :: texts, rfl, hall⟩

end Loop

/-- The page loop ends against every RPC whose pagination keys are some of a finite set,
whatever else it answers: there are at most as many requests as keys, and one more. The fetch
then has one outcome, however many rounds it was given. If it succeeds, the replies were pages,
their keys were distinct, only the last page had none, and no page was older than the first or
than the required slot. -/
theorem fetch_ends (codecs : Codecs) (deserialize : Deserialize) (minimumContextSlot : Option ℕ)
    (rpc : Rpc) (keys : Finset String) (hkeys : ∀ asked, KeyFrom keys (rpc asked)) :
    (∀ rounds, (exchanges codecs deserialize minimumContextSlot rpc rounds).length ≤
      keys.card + 1) ∧
    ∃ replies outcome,
      (∀ rounds, keys.card < rounds →
        (exchanges codecs deserialize minimumContextSlot rpc rounds).map Prod.snd = replies) ∧
      fetchFullAltState codecs deserialize minimumContextSlot .new replies = some outcome ∧
      ∀ fetched, outcome = .ok fetched → ∃ first rest, ∃ texts : List String,
        replies = (first :: rest).map .ok ∧ fetched.contextSlot = first.slot ∧
        (first :: rest).map (·.value.paginationKey) = texts.map some ++ [none] ∧
        texts.Nodup ∧
        ∀ page ∈ first :: rest, first.slot ≤ page.slot ∧
          ∀ minimum, minimumContextSlot = some minimum → minimum ≤ page.slot := by
  let budget := unseen codecs deserialize minimumContextSlot keys
  have hnew : budget.Valid .new :=
    ⟨List.nodup_nil, fun text htext => absurd htext List.not_mem_nil⟩
  have hleft : budget.left .new = keys.card := Nat.sub_zero _
  refine ⟨fun rounds => ?_, ?_⟩
  · exact hleft ▸ budget.length_transcript_le hkeys hnew
  · have hended : ∃ outcome, (pageLoop codecs deserialize minimumContextSlot).Ends .new
        ((exchanges codecs deserialize minimumContextSlot rpc (keys.card + 1)).map Prod.snd)
        outcome := budget.ends hkeys hnew (hleft ▸ Nat.lt_succ_self _)
    obtain ⟨outcome, hends⟩ := hended
    refine ⟨(exchanges codecs deserialize minimumContextSlot rpc (keys.card + 1)).map Prod.snd,
      outcome, fun rounds hrounds => ?_, ?_, ?_⟩
    · exact congrArg (List.map Prod.snd) (hends.transcript_eq hrounds)
    · rw [fetchFullAltState_eq_result]
      exact hends.result_eq
    · rintro fetched rfl
      obtain ⟨pages, texts, hreplies, hconsumed⟩ := consumed_of_ends hends
      cases pages with
      | nil =>
        rw [hreplies] at hends
        cases hends
      | cons first rest =>
        have hslot : fetched.contextSlot = first.slot := hconsumed.first first rfl
        refine ⟨first, rest, texts, hreplies, hslot, hconsumed.keys, hconsumed.distinct, ?_⟩
        intro page hpage
        obtain ⟨hminimum, hfirst⟩ := hconsumed.slots page hpage
        refine ⟨hslot ▸ hfirst, ?_⟩
        rintro minimum rfl
        exact hminimum

/-- This RPC answers the first request with an empty page of slot 10 that has a key, and every
later one with a page of slot 11 that has none. -/
def twoPages : Rpc := fun asked =>
  if asked.length = 1 then .ok ⟨10, [], some "next"⟩ else .ok ⟨11, [], none⟩

/-- A fetch from it sends at most two requests. -/
theorem fetch_ends_twoPages :
    (∀ asked, KeyFrom {"next"} (twoPages asked)) ∧
      ∀ rounds, (exchanges .plain (fun _ => none) (some 9) twoPages rounds).length ≤ 1 + 1 := by
  have hkeys (asked : List ProgramAccountsConfig) : KeyFrom {"next"} (twoPages asked) := by
    intro page text hreply hkey
    unfold twoPages at hreply
    split at hreply
    · obtain rfl := Except.ok.inj hreply
      obtain rfl := Option.some.inj hkey
      exact Finset.mem_singleton_self _
    · obtain rfl := Except.ok.inj hreply
      cases hkey
  exact ⟨hkeys, (fetch_ends .plain (fun _ => none) (some 9) twoPages {"next"} hkeys).1⟩

end AltCache.AltStateFetcher
