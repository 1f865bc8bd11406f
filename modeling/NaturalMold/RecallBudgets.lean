import Mathlib.Algebra.Ring.Nat
import NaturalMold.MemoryRecall

/-! # Budgets of recalled memories -/

namespace NaturalMold.MemoryRecall

open Conversations (Uuid)
open CronExpressions (Text)
open GreedySelections
open MemoryProfiles (estimateTokens)

def hangul (text : Text) : ℕ :=
  text.countP fun char => 0xac00 ≤ char.toNat && char.toNat ≤ 0xd7a3

def others (text : Text) : ℕ :=
  text.length - hangul text

theorem estimateTokens_eq (text : Text) :
    estimateTokens text = hangul text + (others text + 3) / 4 :=
  rfl

theorem hangul_add_others (text : Text) : hangul text + others text = text.length := by
  have within : hangul text ≤ text.length := List.countP_le_length
  rw [others]
  omega

theorem hangul_append (first second : Text) :
    hangul (first ++ second) = hangul first + hangul second :=
  List.countP_append

theorem others_append (first second : Text) :
    others (first ++ second) = others first + others second := by
  have firstLength := hangul_add_others first
  have secondLength := hangul_add_others second
  have bothLength := hangul_add_others (first ++ second)
  rw [hangul_append, List.length_append] at bothLength
  omega

theorem hangul_intercalate (texts : List Text) :
    hangul (List.intercalate ['\n'] texts) = (texts.map hangul).sum := by
  induction texts with
  | nil => rfl
  | cons text texts ih =>
      cases texts with
      | nil => simp [List.intercalate]
      | cons next texts =>
          have joined : List.intercalate ['\n'] (text :: next :: texts) =
              text ++ ['\n'] ++ List.intercalate ['\n'] (next :: texts) := by
            simp [List.intercalate]
          rw [joined, hangul_append, hangul_append, ih, List.map_cons, List.sum_cons]
          rfl

/-- A joined text has a line break between each two of its parts. -/
theorem others_intercalate (texts : List Text) (nonempty : texts ≠ []) :
    others (List.intercalate ['\n'] texts) + 1 = (texts.map others).sum + texts.length := by
  induction texts with
  | nil => exact absurd rfl nonempty
  | cons text texts ih =>
      cases texts with
      | nil => simp [List.intercalate]
      | cons next texts =>
          have joined : List.intercalate ['\n'] (text :: next :: texts) =
              text ++ ['\n'] ++ List.intercalate ['\n'] (next :: texts) := by
            simp [List.intercalate]
          have lineBreak : others ['\n'] = 1 := rfl
          have later := ih (List.cons_ne_nil next texts)
          rw [joined, others_append, others_append, lineBreak, List.map_cons, List.sum_cons,
            List.length_cons]
          omega

theorem hangul_paddedDigits (base width value : ℕ) (small : base ≤ 16) (pos : 0 < base) :
    hangul (paddedDigits base width value) = 0 := by
  rw [hangul, List.countP_eq_zero]
  intro char member
  obtain ⟨place, _, rfl⟩ := List.mem_map.mp member
  have digit : value / base ^ place % base < 16 := by
    have := Nat.mod_lt (value / base ^ place) pos
    omega
  generalize value / base ^ place % base = rest at digit
  revert digit
  revert rest
  decide

theorem length_paddedDigits (base width value : ℕ) :
    (paddedDigits base width value).length = width := by
  simp [paddedDigits]

theorem hangul_isoformat (date : Date) : hangul date.isoformat = 0 := by
  rw [Date.isoformat]
  simp only [hangul_append, hangul_paddedDigits 10 _ _ (by omega) (by omega)]
  rfl

theorem others_isoformat (date : Date) : others date.isoformat = 10 := by
  have whole := hangul_add_others date.isoformat
  have length : date.isoformat.length = 10 := by
    simp [Date.isoformat, length_paddedDigits]
  rw [hangul_isoformat] at whole
  omega

theorem hangul_around (start ending : Text) (date : Date) :
    hangul (start ++ date.isoformat ++ ending) = hangul start + hangul ending := by
  rw [hangul_append, hangul_append, hangul_isoformat, Nat.add_zero]

theorem others_around (start ending : Text) (date : Date) :
    others (start ++ date.isoformat ++ ending) = others start + 10 + others ending := by
  rw [others_append, others_append, others_isoformat]

theorem hangul_opening (now : Date) : hangul (opening now) = 0 :=
  (hangul_around _ _ now).trans (by decide +kernel)

theorem others_opening (now : Date) : others (opening now) = 38 :=
  (others_around _ _ now).trans (by decide +kernel)

theorem parts_autoPreamble : hangul autoPreamble = 78 ∧ others autoPreamble = 45 := by
  have counted : hangul autoPreamble = 78 ∧ autoPreamble.length = 123 := by
    -- the three pieces of the text one by one
    unfold autoPreamble
    simp only [String.toList_append, hangul_append, List.length_append]
    decide +kernel
  exact ⟨counted.1, by rw [others, counted.1, counted.2]⟩

/-- The syllables and the other characters of a block. -/
theorem parts_renderBlock {lines : List Text} (nonempty : lines ≠ []) (now : Date) :
    hangul (renderBlock lines now) = 78 + (lines.map hangul).sum ∧
      others (renderBlock lines now) = 105 + lines.length + (lines.map others).sum := by
  have ending : hangul closing = 0 ∧ others closing = 20 := by decide +kernel
  have parts := others_intercalate ([opening now, autoPreamble] ++ lines ++ [closing]) (by simp)
  rw [renderBlock, if_neg nonempty, hangul_intercalate]
  simp only [List.map_append, List.map_cons, List.map_nil, List.sum_append, List.sum_cons,
    List.sum_nil, List.length_append, List.length_cons, List.length_nil, hangul_opening,
    others_opening, parts_autoPreamble, ending] at parts ⊢
  omega

theorem fixedTokens_eq (now : Date) : fixedTokens now = 105 := by
  obtain ⟨syllables, rest⟩ := parts_renderBlock (List.cons_ne_nil ['-'] []) now
  rw [fixedTokens, estimateTokens_eq, syllables, rest]
  rfl

/-- The characters that a text still takes without another token. -/
def roundingRest (text : Text) : ℕ :=
  4 * ((others text + 3) / 4) - others text

theorem rest_add_others (text : Text) :
    others text + roundingRest text = 4 * ((others text + 3) / 4) := by
  rw [roundingRest]
  omega

def countedTokens (lines : List Text) : ℕ :=
  105 + (lines.map estimateTokens).sum

theorem counted_parts (lines : List Text) :
    4 * (lines.map estimateTokens).sum =
      4 * (lines.map hangul).sum + (lines.map others).sum + (lines.map roundingRest).sum := by
  induction lines with
  | nil => rfl
  | cons line lines ih =>
      have rest := rest_add_others line
      have tokens := estimateTokens_eq line
      simp only [List.map_cons, List.sum_cons]
      omega

/-- Lines that are counted within a budget are within it as a block just when the line breaks
between them fit in the roundings and in what is left of the budget. -/
theorem estimateTokens_renderBlock_le_iff {lines : List Text} (nonempty : lines ≠ [])
    (now : Date) {budget : ℕ} (counted : countedTokens lines ≤ budget) :
    estimateTokens (renderBlock lines now) ≤ budget ↔
      lines.length ≤
        3 + (lines.map roundingRest).sum + 4 * (budget - countedTokens lines) := by
  obtain ⟨syllables, rest⟩ := parts_renderBlock nonempty now
  have parts := counted_parts lines
  rw [countedTokens] at counted ⊢
  rw [estimateTokens_eq, syllables, rest]
  omega

section Selecting

variable (limits : Limits) (now : Date)

def lineOf (item : Scored) : Text :=
  renderLine item.record now limits.limitChars false

def whyLeftOut (chosen : List Scored) (item : Scored) : Option LeftOut :=
  if capReached limits.caps item.record.scope
      (chosen.countP fun other => other.record.scope = item.record.scope) then some .scopeCap
  else if limits.budget < countedTokens ((chosen ++ [item]).map (lineOf limits now)) then
    some .budget
  else none

/-- What the loop of the selection keeps. -/
structure Tracks (chosen : Selection) (perScope : OrderedDict String ℕ) : Prop where
  lines : chosen.lines = chosen.items.map (lineOf limits now)
  tokens : 105 + chosen.tokens = countedTokens chosen.lines
  fits : chosen.items ≠ [] → countedTokens chosen.lines ≤ limits.budget
  scopes : ∀ scope, (perScope.get? scope).getD 0 =
    chosen.items.countP fun item => item.record.scope = scope

variable {limits now} {chosen : Selection} {perScope : OrderedDict String ℕ}

theorem tracks_empty (limits : Limits) (now : Date) : Tracks limits now {} .empty where
  lines := rfl
  tokens := rfl
  fits := fun nonempty => absurd rfl nonempty
  scopes _ := rfl

theorem countedTokens_append (first second : List Text) :
    countedTokens (first ++ second) = countedTokens first + (second.map estimateTokens).sum := by
  rw [countedTokens, countedTokens, List.map_append, List.sum_append]
  omega

/-- The comparison of the loop is that of the whole lines. -/
theorem Tracks.counted_add (tracks : Tracks limits now chosen perScope) (item : Scored) :
    fixedTokens now + chosen.tokens + estimateTokens (lineOf limits now item) =
      countedTokens ((chosen.items ++ [item]).map (lineOf limits now)) := by
  rw [fixedTokens_eq, tracks.tokens, tracks.lines, List.map_append, countedTokens_append]
  simp

theorem Tracks.dropped (tracks : Tracks limits now chosen perScope) (dropped : ℕ) :
    Tracks limits now { chosen with dropped } perScope where
  lines := tracks.lines
  tokens := tracks.tokens
  fits := tracks.fits
  scopes := tracks.scopes

theorem Tracks.taken (tracks : Tracks limits now chosen perScope) {item : Scored}
    (fits : countedTokens ((chosen.items ++ [item]).map (lineOf limits now)) ≤ limits.budget) :
    Tracks limits now
      { chosen with
        items := chosen.items ++ [item]
        lines := chosen.lines ++ [lineOf limits now item]
        tokens := chosen.tokens + estimateTokens (lineOf limits now item) }
      (perScope.set item.record.scope ((perScope.get? item.record.scope).getD 0 + 1)) where
  lines := by
    rw [tracks.lines, List.map_append]
    rfl
  tokens := by
    rw [countedTokens_append, ← tracks.tokens]
    simp
    omega
  fits _ := by
    rw [tracks.lines]
    rwa [List.map_append] at fits
  scopes scope := by
    rw [OrderedDict.get?_set, List.countP_append, ← tracks.scopes scope]
    by_cases same : item.record.scope = scope
    · simp [same]
    · simp [same, Ne.symm same]

theorem selectLoop_spec (unbounded : limits.maxItems = none) (ranked : List Scored)
    (tracks : Tracks limits now chosen perScope) :
    (selectLoop limits now ranked chosen perScope).items =
        select (whyLeftOut limits now) chosen.items ranked ∧
      ∃ counts : OrderedDict String ℕ,
        Tracks limits now (selectLoop limits now ranked chosen perScope) counts := by
  induction ranked generalizing chosen perScope with
  | nil => exact ⟨rfl, perScope, tracks⟩
  | cons item ranked ih =>
      have counted := tracks.counted_add item
      rw [selectLoop, unbounded]
      by_cases capped : capReached limits.caps item.record.scope
          ((perScope.get? item.record.scope).getD 0) = true
      · have why : whyLeftOut limits now chosen.items item = some .scopeCap := by
          rw [tracks.scopes] at capped
          rw [whyLeftOut, if_pos capped]
        rw [if_pos capped, select_cons_of_eq_some _ why]
        exact ih tracks
      · rw [if_neg capped, Option.any_none, if_neg Bool.false_ne_true]
        rw [tracks.scopes] at capped
        by_cases exceeds : limits.budget <
            countedTokens ((chosen.items ++ [item]).map (lineOf limits now))
        · have why : whyLeftOut limits now chosen.items item = some .budget := by
            rw [whyLeftOut, if_neg capped, if_pos exceeds]
          rw [select_cons_of_eq_some _ why]
          rw [← counted, lineOf] at exceeds
          dsimp only
          rw [if_pos exceeds]
          exact ih (tracks.dropped _)
        · have why : whyLeftOut limits now chosen.items item = none := by
            rw [whyLeftOut, if_neg capped, if_neg exceeds]
          have later := ih (tracks.taken (Nat.not_lt.mp exceeds))
          rw [select_cons_of_eq_none _ why]
          rw [← counted, lineOf] at exceeds
          dsimp only
          rw [if_neg exceeds]
          exact later

variable (limits now)

theorem selectWithinBudget_spec (unbounded : limits.maxItems = none) (ranked : List Scored) :
    let chosen := selectWithinBudget limits ranked now
    chosen.items = select (whyLeftOut limits now) [] ranked ∧
      chosen.lines = chosen.items.map (lineOf limits now) ∧
        (chosen.items ≠ [] → countedTokens chosen.lines ≤ limits.budget) := by
  obtain ⟨selected, counts, tracks⟩ :=
    selectLoop_spec unbounded ranked (tracks_empty limits now)
  rw [selectWithinBudget]
  dsimp only
  split
  · exact ⟨selected, tracks.lines, tracks.fits⟩
  · exact ⟨selected, tracks.lines, tracks.fits⟩

end Selecting

def shownAs (item : Scored) (why : Option LeftOut) : PreviewItem where
  scored := item
  included := why.isNone
  leftOut := why

theorem capReached_scopeCaps_iff (scope : String) {taken : ℕ} (few : taken < listCandidates) :
    capReached scopeCaps scope taken = true ↔
      (scopeCaps.get? scope).getD listCandidates ≤ taken := by
  rw [capReached]
  cases scopeCaps.get? scope with
  | none => simpa using few
  | some cap => simp

section Previewing

variable {ranked : Ranked} {now : Date} {chosen : List Scored}

theorem mem_picked_iff (sublist : chosen.Sublist ranked.items) {item : Scored}
    (listed : item ∈ ranked.items) :
    item.record.id ∈ chosen.map (fun item => item.record.id) ↔ item ∈ chosen := by
  constructor
  · intro picked
    obtain ⟨other, member, same⟩ := List.mem_map.mp picked
    rwa [← List.inj_on_of_nodup_map ranked.nodup (sublist.subset member) listed same]
  · exact List.mem_map_of_mem

theorem whyLeftOut_of_notMem (greedy : IsGreedy (whyLeftOut {} now) ranked.items chosen)
    {before after : List Scored} {item : Scored} (split : ranked.items = before ++ item :: after)
    (leftOut : item ∉ chosen) (early : before.length < listCandidates) {taken : ℕ}
    (counts : taken = (before.filter (· ∈ chosen)).countP fun other =>
      other.record.scope = item.record.scope) :
    whyLeftOut {} now (before.filter (· ∈ chosen)) item =
      if (scopeCaps.get? item.record.scope).getD listCandidates ≤ taken then some .scopeCap
      else some .budget := by
  have selected := greedy.mem_iff before.length item (by simp [split])
  rw [split, List.take_left] at selected
  have few : taken < listCandidates := by
    rw [counts]
    have counted := List.countP_le_length (p := fun other : Scored =>
      other.record.scope = item.record.scope) (l := before.filter (· ∈ chosen))
    have filtered := List.length_filter_le (· ∈ chosen) before
    omega
  have capped := capReached_scopeCaps_iff item.record.scope few
  have caps : ({} : Limits).caps = scopeCaps := rfl
  rw [selected] at leftOut
  rw [whyLeftOut, caps, ← counts] at leftOut ⊢
  by_cases reached : capReached scopeCaps item.record.scope taken = true
  · rw [if_pos reached, if_pos (capped.mp reached)]
  · rw [if_neg reached] at leftOut ⊢
    rw [if_neg (mt capped.mpr reached)]
    split at leftOut
    · next exceeds => rw [if_pos exceeds]
    · exact absurd rfl leftOut

theorem countP_filter_append_singleton (chosen before : List Scored) (item : Scored)
    (scope : String) :
    ((before ++ [item]).filter (· ∈ chosen)).countP (fun other => other.record.scope = scope) =
      (before.filter (· ∈ chosen)).countP (fun other => other.record.scope = scope) +
        if item ∈ chosen ∧ item.record.scope = scope then 1 else 0 := by
  rw [List.filter_append, List.countP_append]
  by_cases member : item ∈ chosen <;> by_cases same : item.record.scope = scope <;>
    simp [member, same]

/-- The preview of the memories that come after those before shows each one with the reason
that the selection had. -/
theorem previewLoop_getElem? (greedy : IsGreedy (whyLeftOut {} now) ranked.items chosen)
    (rest before after : List Scored) (split : ranked.items = before ++ rest ++ after)
    (early : before.length + rest.length ≤ listCandidates) (perScope : OrderedDict String ℕ)
    (counts : ∀ scope, (perScope.get? scope).getD 0 =
      (before.filter (· ∈ chosen)).countP fun other => other.record.scope = scope)
    (index : ℕ) :
    (previewLoop (chosen.map fun item => item.record.id) rest perScope)[index]? =
      rest[index]?.map fun item => shownAs item
        (whyLeftOut {} now ((before ++ rest.take index).filter (· ∈ chosen)) item) := by
  induction rest generalizing before perScope index with
  | nil => rfl
  | cons item rest ih =>
      have splitHead : ranked.items = before ++ item :: (rest ++ after) := by simp [split]
      have splitTail : ranked.items = (before ++ [item]) ++ rest ++ after := by simp [split]
      have listed : item ∈ ranked.items := by simp [split]
      rw [List.length_cons] at early
      have short : (before ++ [item]).length + rest.length ≤ listCandidates := by
        rw [List.length_append, List.length_singleton]
        omega
      have selected := greedy.mem_iff before.length item (by simp [splitHead])
      rw [splitHead, List.take_left] at selected
      have later := countP_filter_append_singleton chosen before item
      rw [previewLoop]
      by_cases member : item ∈ chosen
      · rw [if_pos ((mem_picked_iff greedy.sublist listed).mpr member)]
        cases index with
        | zero =>
            simp [selected.mp member, shownAs]
        | succ index =>
            rw [List.getElem?_cons_succ, ih (before ++ [item]) splitTail short _ ?_ index]
            · simp
            · intro scope
              rw [OrderedDict.get?_set, later, ← counts scope]
              by_cases same : item.record.scope = scope
              · simp [same, member]
              · simp [same, Ne.symm same]
      · have why := whyLeftOut_of_notMem greedy splitHead member (by omega)
          (counts item.record.scope)
        have unchanged : ∀ scope, (perScope.get? scope).getD 0 =
            ((before ++ [item]).filter (· ∈ chosen)).countP
              fun other => other.record.scope = scope := by
          intro scope
          rw [later, counts scope]
          simp [member]
        rw [if_neg (mt (mem_picked_iff greedy.sublist listed).mp member)]
        cases index with
        | zero =>
            rw [List.getElem?_cons_zero, Option.map_some, List.take_zero, List.append_nil, why]
            by_cases reached : (scopeCaps.get? item.record.scope).getD listCandidates ≤
                (perScope.get? item.record.scope).getD 0
            · rw [if_pos reached, if_pos reached]
              rfl
            · rw [if_neg reached, if_neg reached]
              rfl
        | succ index =>
            have tail := ih (before ++ [item]) splitTail short _ unchanged index
            split <;> simpa using tail

end Previewing

/-- A recall whose block is within the budget, whose selection is the greedy one, and whose
preview shows each memory with the reason that the selection had. -/
structure RecallsTruly (limits : Limits) (ranked : Ranked) (now : Date) : Prop where
  within : (selectWithinBudget limits ranked.items now).items ≠ [] →
    estimateTokens (renderBlock (selectWithinBudget limits ranked.items now).lines now) ≤
      limits.budget
  greedy : IsGreedy (whyLeftOut limits now) ranked.items
    (selectWithinBudget limits ranked.items now).items
  lines : (selectWithinBudget limits ranked.items now).lines =
    (selectWithinBudget limits ranked.items now).items.map (lineOf limits now)
  preview : ∀ (analyzer : String) (vector : VectorState) (rule : Option ShortMessageRule)
    (index : ℕ) (shown : PreviewItem),
      (preview analyzer vector rule ranked now).items[index]? = some shown →
        ∃ item : Scored, ranked.items[index]? = some item ∧
          shown = shownAs item (whyLeftOut {} now ((ranked.items.take index).filter
            (· ∈ (selectWithinBudget {} ranked.items now).items)) item)

/-- The line breaks between the lines of what the rule picks in the order of the rank fit in
the roundings of the lines and in what is left of the budget. -/
def LineBreaksFit (limits : Limits) (ranked : Ranked) (now : Date) : Prop :=
  ∀ picked, IsGreedy (whyLeftOut limits now) ranked.items picked → picked ≠ [] →
    picked.length ≤ 3 + ((picked.map (lineOf limits now)).map roundingRest).sum +
      4 * (limits.budget - countedTokens (picked.map (lineOf limits now)))

theorem Ranked.nodup_items (ranked : Ranked) : ranked.items.Nodup :=
  List.Nodup.of_map _ ranked.nodup

theorem preview_shown (ranked : Ranked) (now : Date) (analyzer : String) (vector : VectorState)
    (rule : Option ShortMessageRule) {index : ℕ} {shown : PreviewItem}
    (found : (preview analyzer vector rule ranked now).items[index]? = some shown) :
    ∃ item : Scored, ranked.items[index]? = some item ∧
      shown = shownAs item (whyLeftOut {} now ((ranked.items.take index).filter
        (· ∈ (selectWithinBudget {} ranked.items now).items)) item) := by
  have greedy := (isGreedy_iff ranked.nodup_items).mpr
    (selectWithinBudget_spec {} now rfl ranked.items).1
  cases rule with
  | some rule => cases rule <;> cases found
  | none =>
      have items := previewLoop_getElem? greedy (ranked.items.take listCandidates) []
        (ranked.items.drop listCandidates)
        (by rw [List.nil_append, List.take_append_drop])
        (by rw [List.length_nil, List.length_take]; omega)
        .empty (fun _ => rfl) index
      rw [preview] at found
      rw [items, Option.map_eq_some_iff] at found
      obtain ⟨item, listed, rfl⟩ := found
      use item
      rw [List.getElem?_take] at listed
      split at listed
      · next early =>
          constructor
          · exact listed
          · rw [List.nil_append, List.take_take, Nat.min_eq_left (Nat.le_of_lt early)]
      · cases listed

/-- The block of a recall is within its budget just when the line breaks that the selection
does not count fit; all else holds of every recall. -/
theorem recallsTruly_iff (budget : ℕ) (caps : OrderedDict String ℕ) (limitChars : ℕ)
    (ranked : Ranked) (now : Date) :
    RecallsTruly { budget, caps, limitChars } ranked now ↔
      LineBreaksFit { budget, caps, limitChars } ranked now := by
  obtain ⟨selected, lines, counted⟩ :=
    selectWithinBudget_spec { budget, caps, limitChars } now rfl ranked.items
  have greedy := (isGreedy_iff ranked.nodup_items).mpr selected
  have shown : (selectWithinBudget { budget, caps, limitChars } ranked.items now).items ≠ [] →
      (selectWithinBudget { budget, caps, limitChars } ranked.items now).lines ≠ [] := by
    rw [lines]
    simp
  constructor
  · intro truly picked isGreedy nonempty
    rw [(isGreedy_iff ranked.nodup_items).mp isGreedy, ← selected] at nonempty ⊢
    have fits := (estimateTokens_renderBlock_le_iff (shown nonempty) now
      (counted nonempty)).mp (truly.within nonempty)
    rwa [lines, List.length_map] at fits
  · intro fits
    constructor
    case within =>
        intro nonempty
        apply (estimateTokens_renderBlock_le_iff (shown nonempty) now (counted nonempty)).mpr
        rw [lines, List.length_map]
        exact fits _ greedy nonempty
    case greedy => exact greedy
    case lines => exact lines
    case preview =>
        intro analyzer vector rule index shown found
        exact preview_shown ranked now analyzer vector rule found

def firstDay : Date where
  year := 2026
  month := 1
  day := 5
  inYears := by decide
  inMonths := by decide
  inDays := by decide

/-- A memory that a person stated and that was saved today. -/
def plainMemory (id : ℕ) (scope : String) (length : ℕ) (ending : Text) : Scored where
  record :=
    { id
      scope
      kind := "fact"
      origin := "user_stated"
      approvalChannel := none
      status := "active"
      content := List.replicate length '가' ++ ending
      updatedAt := some firstDay
      occurredStart := none
      occurredEnd := none }

/-- Eight memories whose lines fill whole tokens. -/
def fullRanking : Ranked where
  items :=
    [plainMemory 1 "user" 150 ['.'], plainMemory 2 "user" 150 ['.'],
      plainMemory 3 "user" 150 ['.'], plainMemory 4 "user" 150 ['.'],
      plainMemory 5 "agent" 140 [], plainMemory 6 "agent" 140 [],
      plainMemory 7 "agent" 140 [], plainMemory 8 "agent" 139 []]
  nodup := by decide

/-- Eight lines that fill the budget leave no place for the line breaks between them. -/
theorem fullRanking_not_recallsTruly : ¬ RecallsTruly {} fullRanking firstDay := by
  intro truly
  have filled : (selectWithinBudget {} fullRanking.items firstDay).items ≠ [] ∧
      1500 < estimateTokens (renderBlock
        (selectWithinBudget {} fullRanking.items firstDay).lines firstDay) := by
    decide +kernel
  exact absurd (truly.within filled.1) (Nat.not_le.mpr filled.2)

end NaturalMold.MemoryRecall
