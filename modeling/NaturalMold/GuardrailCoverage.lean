import NaturalMold.GuardrailActions
import NaturalMold.IntervalClusters

/-! # What the spans of a text cover -/

namespace NaturalMold.Guardrails

namespace Span

open IntervalClusters

/-- A span reaches over another one. -/
def Covers (outer inner : Span) : Prop :=
  outer.start ≤ inner.start ∧ inner.stop ≤ outer.stop

def Linked (matched : List Span) (first second : Span) : Prop :=
  IntervalClusters.Linked Span.start Span.stop matched first second

def hull : List Span → Option Span
  | [] => none
  | first :: rest => some (rest.foldl join first)

theorem hull_snoc {group : List Span} {held next : Span} (joined : hull group = some held) :
    hull (group ++ [next]) = some (held.join next) := by
  cases group with
  | nil => exact absurd joined nofun
  | cons first rest =>
      rw [List.cons_append, hull, List.foldl_append, Option.some.inj joined]
      rfl

theorem mergeFrom_eq_hull {group rest : List Span} {held : Span} (joined : hull group = some held) :
    (mergeFrom held rest).map some =
      (clustersFrom Span.start Span.stop group held.stop rest).map hull := by
  induction rest generalizing group held with
  | nil => rw [mergeFrom, clustersFrom, List.map_singleton, List.map_singleton, joined]
  | cons next rest ih =>
      rw [mergeFrom, clustersFrom]
      split
      · exact ih (hull_snoc joined)
      · have single : hull [next] = some next := rfl
        rw [List.map_cons, List.map_cons, joined, ih single]

theorem mergeSorted_eq_hull (sorted : List Span) :
    (mergeSorted sorted).map some = (clusters Span.start Span.stop sorted).map hull := by
  cases sorted with
  | nil => rfl
  | cons first rest =>
      have single : hull [first] = some first := rfl
      exact mergeFrom_eq_hull single

structure IsHull (group : List Span) (span : Span) : Prop where
  start : ∃ found ∈ group, found.start = span.start ∧ group.head? = some found
  stop : ∃ found ∈ group, found.stop = span.stop
  stop_le : ∀ found ∈ group, found.stop ≤ span.stop
  rule : ∃ found ∈ group, found.entity = span.entity ∧ found.rule = span.rule
  strongest : ∀ found ∈ group,
    actionStrength found.rule.action ≤ actionStrength span.rule.action

theorem IsHull.join {group : List Span} {held : Span} (isHull : IsHull group held) (next : Span) :
    IsHull (group ++ [next]) (held.join next) := by
  obtain ⟨⟨first, firstMember, start, head⟩, ⟨last, lastMember, stop⟩, stop_le,
    ⟨strong, strongMember, entity, rule⟩, strongest⟩ := isHull
  have added : next ∈ group ++ [next] := List.mem_append_right _ (List.mem_singleton_self next)
  constructor
  · exact ⟨first, List.mem_append_left _ firstMember, start, by
      rw [List.head?_append, head, Option.some_or]⟩
  · rcases le_total held.stop next.stop with later | earlier
    · exact ⟨next, added, (max_eq_right later).symm⟩
    · exact ⟨last, List.mem_append_left _ lastMember, stop.trans (max_eq_left earlier).symm⟩
  · intro found member
    rcases List.mem_append.mp member with member | member
    · exact (stop_le found member).trans (Nat.le_max_left _ _)
    · rw [List.mem_singleton.mp member]
      exact Nat.le_max_right _ _
  · by_cases stronger : actionStrength held.rule.action < actionStrength next.rule.action
    · exact ⟨next, added, (if_pos stronger).symm, (if_pos stronger).symm⟩
    · exact ⟨strong, List.mem_append_left _ strongMember, entity.trans (if_neg stronger).symm,
        rule.trans (if_neg stronger).symm⟩
  · intro found member
    rw [Span.join]
    dsimp only
    rcases List.mem_append.mp member with member | member
    · have weaker := strongest found member
      split
      · next stronger => exact weaker.trans stronger.le
      · exact weaker
    · rw [List.mem_singleton.mp member]
      split
      · exact le_rfl
      · next weaker => exact Nat.le_of_not_lt weaker

theorem isHull_of_hull {group : List Span} {span : Span} (joined : hull group = some span) :
    IsHull group span := by
  induction group using List.reverseRecOn generalizing span with
  | nil => exact absurd joined nofun
  | append_singleton group next ih =>
      cases whole : hull group with
      | none =>
          have empty : group = [] := by
            cases group with
            | nil => rfl
            | cons => exact absurd whole nofun
          subst empty
          obtain rfl := Option.some.inj joined
          have self : next ∈ [next] := List.mem_singleton_self next
          exact ⟨⟨next, self, rfl, rfl⟩, ⟨next, self, rfl⟩,
            fun found member => by rw [List.mem_singleton.mp member]; exact le_rfl,
            ⟨next, self, rfl, rfl⟩,
            fun found member => by rw [List.mem_singleton.mp member]; exact le_rfl⟩
      | some held =>
          rw [hull_snoc whole] at joined
          obtain rfl := Option.some.inj joined
          exact (ih whole).join next

/-- The merged spans are the connected components of the matched ones, each with the strongest rule
of its component. -/
structure Components (matched merged : List Span) : Prop where
  forward : ∀ span ∈ merged, span.start < span.stop
  apart : merged.Pairwise fun first second => first.stop ≤ second.start
  covered : ∀ found ∈ matched, ∃ span ∈ merged, span.Covers found
  component : ∀ span ∈ merged, ∀ found ∈ matched, span.Covers found →
    ∀ other ∈ matched, Linked matched found other ↔ span.Covers other
  starts : ∀ span ∈ merged, ∃ found ∈ matched, span.Covers found ∧ found.start = span.start
  stops : ∀ span ∈ merged, ∃ found ∈ matched, span.Covers found ∧ found.stop = span.stop
  filled : ∀ span ∈ merged, ∀ point, span.start ≤ point → point < span.stop →
    ∃ found ∈ matched, span.Covers found ∧ found.start ≤ point ∧ point < found.stop
  rule : ∀ span ∈ merged, ∃ found ∈ matched, span.Covers found ∧
    found.entity = span.entity ∧ found.rule = span.rule
  strongest : ∀ span ∈ merged, ∀ found ∈ matched, span.Covers found →
    actionStrength found.rule.action ≤ actionStrength span.rule.action

theorem Following.le_start {cursor : ℕ} {spans : List Span} (following : Following cursor spans) :
    ∀ span ∈ spans, cursor ≤ span.start := by
  induction spans generalizing cursor with
  | nil => exact nofun
  | cons first rest ih =>
      obtain ⟨after, whole, later⟩ := following
      intro span member
      rcases List.mem_cons.mp member with rfl | member
      · exact after
      · exact after.trans (whole.trans (ih later span member))

theorem Following.pairwise {cursor : ℕ} {spans : List Span} (following : Following cursor spans) :
    spans.Pairwise fun first second => first.stop ≤ second.start := by
  induction spans generalizing cursor with
  | nil => exact List.Pairwise.nil
  | cons first rest ih =>
      obtain ⟨_, _, later⟩ := following
      exact List.pairwise_cons.mpr ⟨later.le_start, ih later⟩

section Merging

variable {sorted : List Span}
  (inOrder : sorted.Pairwise fun first second => first.start ≤ second.start)
  (forward : ∀ span ∈ sorted, span.start < span.stop)

include inOrder forward

theorem isCluster_of_hull {group : List Span} {span : Span}
    (groupListed : group ∈ clusters Span.start Span.stop sorted) (joined : hull group = some span) :
    IsCluster Span.start Span.stop group span.start span.stop := by
  have isHull := isHull_of_hull joined
  obtain ⟨left, right, cluster⟩ := (clusters_spec inOrder forward).1 group groupListed
  have groupSorted : group.Pairwise fun first second => first.start ≤ second.start := by
    rw [← @flatten_clusters _ _ _ Span.start Span.stop sorted] at inOrder
    exact (List.pairwise_flatten.mp inOrder).1 group groupListed
  have leftEq : left = span.start := by
    obtain ⟨first, member, start, head⟩ := isHull.start
    obtain ⟨lowest, lowestMember, lowestStart⟩ := cluster.starts
    apply le_antisymm
    · rw [← start]
      exact cluster.left_le first member
    · rw [← start, ← lowestStart]
      obtain ⟨tail, rfl⟩ := List.head?_eq_some_iff.mp head
      rcases List.mem_cons.mp lowestMember with rfl | later
      · exact le_rfl
      · exact (List.pairwise_cons.mp groupSorted).1 lowest later
  have rightEq : right = span.stop := by
    obtain ⟨last, member, stop⟩ := isHull.stop
    obtain ⟨highest, highestMember, highestStop⟩ := cluster.stops
    apply le_antisymm
    · rw [← highestStop]
      exact isHull.stop_le highest highestMember
    · rw [← stop]
      exact cluster.le_right last member
  exact leftEq ▸ rightEq ▸ cluster

theorem exists_group {span : Span} (listed : span ∈ mergeSorted sorted) :
    ∃ group ∈ clusters Span.start Span.stop sorted, IsHull group span ∧
      IsCluster Span.start Span.stop group span.start span.stop := by
  have shown : some span ∈ (clusters Span.start Span.stop sorted).map hull := by
    rw [← mergeSorted_eq_hull]
    exact List.mem_map_of_mem listed
  obtain ⟨group, groupListed, joined⟩ := List.mem_map.mp shown
  exact ⟨group, groupListed, isHull_of_hull joined,
    isCluster_of_hull inOrder forward groupListed joined⟩

theorem mem_group_iff {group : List Span} {span found : Span}
    (listed : group ∈ clusters Span.start Span.stop sorted)
    (cluster : IsCluster Span.start Span.stop group span.start span.stop)
    (matched : found ∈ sorted) : found ∈ group ↔ span.Covers found := by
  constructor
  · exact fun member => ⟨cluster.left_le found member, cluster.le_right found member⟩
  · rintro ⟨start, stop⟩
    have nonempty := forward found matched
    obtain ⟨member, inGroup, before, after⟩ := cluster.filled found.start start
      (nonempty.trans_le stop)
    have overlap : Overlap Span.start Span.stop member found := ⟨before.trans_lt nonempty, after⟩
    exact (linked_iff_mem inOrder forward listed inGroup).mp (.single ⟨matched, overlap⟩)

theorem components_mergeSorted : Components sorted (mergeSorted sorted) := by
  have inGroup : ∀ {group found}, group ∈ clusters Span.start Span.stop sorted → found ∈ group →
      found ∈ sorted := fun listed member => mem_clusters listed member
  constructor
  · intro span listed
    obtain ⟨group, groupListed, isHull, cluster⟩ := exists_group inOrder forward listed
    obtain ⟨first, member, start, _⟩ := isHull.start
    rw [← start]
    exact (forward first (inGroup groupListed member)).trans_le (isHull.stop_le first member)
  · cases sorted with
    | nil => exact List.Pairwise.nil
    | cons first rest =>
        have following := following_mergeFrom (Nat.zero_le first.start)
          (fun span member => (forward span member).le) inOrder
        exact following.pairwise
  · intro found matched
    obtain ⟨group, groupListed, member⟩ :=
      @exists_mem_clusters _ _ _ Span.start Span.stop _ _ matched
    have shown : hull group ∈ (mergeSorted sorted).map some := by
      rw [mergeSorted_eq_hull]
      exact List.mem_map_of_mem groupListed
    obtain ⟨span, listed, joined⟩ := List.mem_map.mp shown
    have cluster := isCluster_of_hull inOrder forward groupListed joined.symm
    exact ⟨span, listed, cluster.left_le found member, cluster.le_right found member⟩
  · intro span listed found matched covers other otherMatched
    obtain ⟨group, groupListed, _, cluster⟩ := exists_group inOrder forward listed
    rw [← mem_group_iff inOrder forward groupListed cluster otherMatched]
    exact linked_iff_mem inOrder forward groupListed
      ((mem_group_iff inOrder forward groupListed cluster matched).mpr covers)
  · intro span listed
    obtain ⟨group, groupListed, isHull, cluster⟩ := exists_group inOrder forward listed
    obtain ⟨found, member, start⟩ := cluster.starts
    exact ⟨found, inGroup groupListed member, ⟨cluster.left_le found member,
      cluster.le_right found member⟩, start⟩
  · intro span listed
    obtain ⟨group, groupListed, isHull, cluster⟩ := exists_group inOrder forward listed
    obtain ⟨found, member, stop⟩ := cluster.stops
    exact ⟨found, inGroup groupListed member, ⟨cluster.left_le found member,
      cluster.le_right found member⟩, stop⟩
  · intro span listed point after before
    obtain ⟨group, groupListed, isHull, cluster⟩ := exists_group inOrder forward listed
    obtain ⟨found, member, holds⟩ := cluster.filled point after before
    exact ⟨found, inGroup groupListed member, ⟨cluster.left_le found member,
      cluster.le_right found member⟩, holds⟩
  · intro span listed
    obtain ⟨group, groupListed, isHull, cluster⟩ := exists_group inOrder forward listed
    obtain ⟨found, member, same⟩ := isHull.rule
    exact ⟨found, inGroup groupListed member, ⟨cluster.left_le found member,
      cluster.le_right found member⟩, same⟩
  · intro span listed found matched covers
    obtain ⟨group, groupListed, isHull, cluster⟩ := exists_group inOrder forward listed
    exact isHull.strongest found
      ((mem_group_iff inOrder forward groupListed cluster matched).mpr covers)

end Merging

theorem Components.congr {sorted matched merged : List Span}
    (components : Components sorted merged) (same : ∀ span, span ∈ sorted ↔ span ∈ matched) :
    Components matched merged := by
  have linked : ∀ first second, Linked matched first second ↔ Linked sorted first second :=
    fun first second => ⟨IntervalClusters.Linked.mono fun span => (same span).mpr,
      IntervalClusters.Linked.mono fun span => (same span).mp⟩
  obtain ⟨forward, apart, covered, component, starts, stops, filled, rule, strongest⟩ := components
  simp only [same] at covered component starts stops filled rule strongest
  refine ⟨forward, apart, covered, ?_, starts, stops, filled, rule, strongest⟩
  intro span listed found matched covers other otherMatched
  rw [linked]
  exact component span listed found matched covers other otherMatched

end Span

/-- A merged finding was found by some pack. -/
theorem mem_of_mem_merge {findings : List Finding} {finding : Finding}
    (member : finding ∈ merge findings) : finding ∈ findings := by
  rw [merge, List.mem_insertionSort, List.mem_map] at member
  obtain ⟨entry, stored, rfl⟩ := member
  suffices origin : ∀ best : OrderedDict (String × Nat × Nat) Finding,
      entry ∈ (findings.foldl mergeStep best).entries → entry ∈ best.entries ∨ entry.2 ∈ findings by
    exact (origin OrderedDict.empty stored).resolve_left List.not_mem_nil
  clear stored
  induction findings with
  | nil => exact fun best stored => Or.inl stored
  | cons finding findings ih =>
      intro best stored
      rcases ih _ stored with held | later
      · have step : ∀ stored : entry ∈ (best.set finding.key finding).entries,
            entry ∈ best.entries ∨ entry.2 ∈ finding :: findings := by
          intro stored
          rcases OrderedDict.mem_setEntry stored with rfl | held
          · exact Or.inr List.mem_cons_self
          · exact Or.inl held
        rw [mergeStep] at held
        split at held
        · exact step held
        · split at held
          · exact step held
          · exact Or.inl held
      · exact Or.inr (List.mem_cons_of_mem _ later)

theorem not_clash_of_nodup {findings : List Finding} (nodup : (findings.map Finding.key).Nodup)
    {rules : RuleSet} {stage : Stage} {first second : Span}
    (firstMatched : first ∈ matchedSpans findings rules stage)
    (secondMatched : second ∈ matchedSpans findings rules stage) : ¬first.Clash second := by
  rintro ⟨start, stop, entity, different⟩
  obtain ⟨one, oneMember, oneEq⟩ := List.mem_filterMap.mp firstMatched
  obtain ⟨two, twoMember, twoEq⟩ := List.mem_filterMap.mp secondMatched
  obtain ⟨oneRule, oneFound, rfl⟩ := Option.map_eq_some_iff.mp oneEq
  obtain ⟨twoRule, twoFound, rfl⟩ := Option.map_eq_some_iff.mp twoEq
  have same : one = two := by
    apply List.inj_on_of_nodup_map nodup oneMember twoMember
    rw [Finding.key, Finding.key, Prod.mk.injEq, Prod.mk.injEq]
    exact ⟨entity, start, stop⟩
  subst same
  exact different (Option.some.inj (oneFound.symm.trans twoFound))

theorem components_spans {findings : List Finding} (nodup : (findings.map Finding.key).Nodup)
    (forward : ∀ finding ∈ findings, finding.start < finding.stop) (rules : RuleSet)
    (stage : Stage) :
    ∃ merged, spans findings rules stage = .ok merged ∧
      Span.Components (matchedSpans findings rules stage) merged := by
  refine ⟨_, if_neg ?_, ?_⟩
  · intro clash
    obtain ⟨first, firstMatched, clash⟩ := List.any_eq_true.mp clash
    obtain ⟨second, secondMatched, clash⟩ := List.any_eq_true.mp clash
    exact not_clash_of_nodup nodup firstMatched secondMatched (of_decide_eq_true clash)
  · apply Span.Components.congr (Span.components_mergeSorted _ _)
    · exact fun span => List.mem_insertionSort Span.InOrder
    · exact (List.pairwise_insertionSort Span.InOrder _).imp Span.InOrder.start_le
    · intro span member
      obtain ⟨finding, findingMember, spanEq⟩ :=
        List.mem_filterMap.mp ((List.mem_insertionSort Span.InOrder).mp member)
      obtain ⟨rule, _, rfl⟩ := Option.map_eq_some_iff.mp spanEq
      exact forward finding findingMember

theorem star_mem_hideDigits {hidden : ℕ} {value : Text} (some : 0 < hidden)
    (digits : 0 < value.countP isDigit) : '*' ∈ hideDigits hidden value := by
  induction value generalizing hidden with
  | nil => exact absurd digits (by simp)
  | cons char value ih =>
      obtain ⟨hidden, rfl⟩ := Nat.exists_eq_succ_of_ne_zero some.ne'
      rw [hideDigits]
      split
      · exact List.mem_cons_self
      · next other =>
          rw [List.countP_cons_of_neg other] at digits
          exact List.mem_cons_of_mem _ (ih (Nat.succ_pos _) digits)

/-- A mask hides something. -/
theorem star_mem_mask (value : Text) (entity : String) : '*' ∈ mask value entity := by
  have stars : ∀ count, '*' ∈ List.replicate (max count 1) '*' := by
    intro count
    rw [List.mem_replicate]
    exact ⟨by omega, rfl⟩
  rw [mask]
  split
  · exact List.mem_append_left _ (List.mem_append_right _ (stars _))
  · split
    · next digits => exact star_mem_hideDigits (by omega) (by omega)
    · exact List.mem_append_right _ (stars _)

section Rewriting

variable {State : Type*} {hmacHex : Text → Text} {pseudonym : Option (Pseudonymizer State)}

/-- What a span's value is written as: kept, replaced without a character of it, or masked. -/
structure Written (hmacHex : Text → Text) (pseudonym : Option (Pseudonymizer State)) (span : Span)
    (value piece : Text) : Prop where
  kept : span.rule.action = .warn ∨ span.rule.action = .block ∨ span.rule.action = .approval →
    piece = value
  redacted : span.rule.action = .redact → piece = bracketedLabel span.entity
  hashed : span.rule.action = .hash → piece = hashToken hmacHex value span.entity
  tagged : span.rule.action = .pseudonymize → pseudonym = none →
    piece = bracketedLabel span.entity
  renamed : span.rule.action = .pseudonymize → ∀ find, pseudonym = some find →
    ∃ state, piece = (find span.entity value span.rule state).1
  masked : span.rule.action = .mask → piece = mask value span.entity
  verbatim : piece = value →
    (span.rule.action = .warn ∨ span.rule.action = .block ∨ span.rule.action = .approval) ∨
      (span.rule.action = .mask ∧ '*' ∈ value) ∨
      ((span.rule.action = .redact ∨ span.rule.action = .hash ∨
        span.rule.action = .pseudonymize ∧ pseudonym = none) ∧ value.head? = some '[') ∨
      (span.rule.action = .pseudonymize ∧ pseudonym ≠ none)

theorem written_applySpan (span : Span) (value : Text) (state : State) :
    Written hmacHex pseudonym span value (applySpan hmacHex pseudonym span value state).1 := by
  obtain ⟨start, stop, entity, rule⟩ := span
  obtain ⟨id, packs, stages, action, entities, restoreForTools, style⟩ := rule
  have label : (bracketedLabel entity).head? = some '[' := rfl
  have token : (hashToken hmacHex value entity).head? = some '[' := rfl
  cases action with
  | warn => constructor <;> simp [applySpan]
  | block => constructor <;> simp [applySpan]
  | approval => constructor <;> simp [applySpan]
  | redact =>
      constructor <;> simp [applySpan, replacement]
      intro same
      rw [← same]
      exact label
  | hash =>
      constructor <;> simp [applySpan, replacement]
      intro same
      exact (congrArg List.head? same).symm.trans token
  | mask =>
      constructor <;> simp [applySpan, replacement]
      intro same
      rw [← same]
      exact star_mem_mask value entity
  | pseudonymize =>
      cases pseudonym with
      | none =>
          constructor <;> simp [applySpan]
          intro same
          rw [← same]
          exact label
      | some find =>
          constructor <;> simp [applySpan]
          exact ⟨state, rfl⟩

def rewritten (text : Text) : ℕ → List (Span × Text) → Text
  | cursor, [] => text.drop cursor
  | cursor, (span, piece) :: rest =>
      (text.take span.start).drop cursor ++ piece ++ rewritten text span.stop rest

theorem exists_pieces (text : Text) (cursor : ℕ) (spans : List Span) (state : State) :
    ∃ pieces : List Text, pieces.length = spans.length ∧
      (applyFrom hmacHex pseudonym text cursor spans state).1 =
        rewritten text cursor (spans.zip pieces) ∧
      ∀ entry ∈ spans.zip pieces, Written hmacHex pseudonym entry.1
        ((text.take entry.1.stop).drop entry.1.start) entry.2 := by
  induction spans generalizing cursor state with
  | nil => exact ⟨[], rfl, rfl, nofun⟩
  | cons span spans ih =>
      obtain ⟨pieces, length, same, written⟩ := ih span.stop (applySpan hmacHex pseudonym span
        ((text.take span.stop).drop span.start) state).2
      refine ⟨(applySpan hmacHex pseudonym span ((text.take span.stop).drop span.start)
        state).1 :: pieces, congrArg (· + 1) length, ?_, ?_⟩
      · rw [applyFrom, List.zip_cons_cons, rewritten, same]
      · rw [List.zip_cons_cons]
        exact List.forall_mem_cons.mpr ⟨written_applySpan span _ state, written⟩

/-- Merged findings are always applied.  The decisions are the connected components of the matched
findings, and the text is copied but for what is written in their place. -/
theorem apply_merge (hmacHex : Text → Text) (pseudonym : Option (Pseudonymizer State)) (text : Text)
    (found : List Finding) (rules : RuleSet) (stage : Stage) (state : State)
    (inside : ∀ finding ∈ found, finding.start < finding.stop ∧ finding.stop ≤ text.length) :
    ∃ merged pieces next,
      apply hmacHex pseudonym text (merge found) rules stage state =
          .ok (⟨rewritten text 0 (merged.zip pieces), merged.map Span.decision⟩, next) ∧
        Span.Components (matchedSpans (merge found) rules stage) merged ∧
        (∀ span ∈ merged, span.stop ≤ text.length) ∧
        pieces.length = merged.length ∧
        ∀ entry ∈ merged.zip pieces, Written hmacHex pseudonym entry.1
          ((text.take entry.1.stop).drop entry.1.start) entry.2 := by
  have forward : ∀ finding ∈ merge found, finding.start < finding.stop :=
    fun finding member => (inside finding (mem_of_mem_merge member)).1
  obtain ⟨merged, spansEq, components⟩ :=
    components_spans (nodup_key_merge found) forward rules stage
  obtain ⟨pieces, length, same, written⟩ := exists_pieces text 0 merged state
  refine ⟨merged, pieces, (applyFrom hmacHex pseudonym text 0 merged state).2, ?_, components, ?_,
    length, written⟩
  · rw [apply, spansEq, ← same]
    rfl
  · intro span listed
    obtain ⟨matched, member, _, stop⟩ := components.stops span listed
    obtain ⟨finding, findingMember, spanEq⟩ := List.mem_filterMap.mp member
    obtain ⟨rule, _, rfl⟩ := Option.map_eq_some_iff.mp spanEq
    rw [← stop]
    exact (inside finding (mem_of_mem_merge findingMember)).2

end Rewriting

def maskedNames : RuleSet where
  template := "names"
  version := 1
  rules := [{ id := "names", packs := ["kr"], stages := {.llmSend}, action := .mask }]

def foundName : Finding where
  entity := "PERSON"
  start := 0
  stop := 2
  score := 1
  pack := "kr"

theorem apply_merge_foundName :
    ∃ merged pieces next,
      apply id (none : Option (Pseudonymizer Unit)) "Al".toList (merge [foundName]) maskedNames
          .llmSend () =
          .ok (⟨rewritten "Al".toList 0 (merged.zip pieces), merged.map Span.decision⟩, next) ∧
        Span.Components (matchedSpans (merge [foundName]) maskedNames .llmSend) merged ∧
        (∀ span ∈ merged, span.stop ≤ "Al".toList.length) ∧
        pieces.length = merged.length ∧
        ∀ entry ∈ merged.zip pieces, Written id (none : Option (Pseudonymizer Unit)) entry.1
          (("Al".toList.take entry.1.stop).drop entry.1.start) entry.2 :=
  apply_merge id none "Al".toList [foundName] maskedNames .llmSend () (by decide)

/-- A name that reads like its own mask is masked to itself. -/
theorem apply_masked_verbatim :
    apply id (none : Option (Pseudonymizer Unit)) "A*".toList (merge [foundName]) maskedNames
        .llmSend () =
      .ok (⟨"A*".toList, [⟨"names", "PERSON", .mask, 0, 2⟩]⟩, ()) := by
  decide

end NaturalMold.Guardrails
