import NaturalMold.InterruptToolCalls

/-! # The cards of an interrupt among the tool calls -/

namespace NaturalMold

namespace OrderedDict

variable {Key Value : Type*} [DecidableEq Key]

theorem entries_eq_of_get? {entries others : List (Key × Value)}
    (nodup : (entries.map Prod.fst).Nodup)
    (keys : entries.map Prod.fst = others.map Prod.fst)
    (same : ∀ key ∈ entries.map Prod.fst, lookupEntry key entries = lookupEntry key others) :
    entries = others := by
  induction entries generalizing others with
  | nil => exact (List.map_eq_nil_iff.mp keys.symm).symm
  | cons entry entries ih =>
      obtain _ | ⟨other, others⟩ := others
      · cases keys
      · rw [List.map_cons, List.map_cons, List.cons_eq_cons] at keys
        rw [List.map_cons, List.nodup_cons] at nodup
        have first := same entry.1 List.mem_cons_self
        rw [lookupEntry, lookupEntry, if_pos rfl, if_pos keys.1.symm, Option.some.injEq] at first
        rw [ih nodup.2 keys.2, Prod.ext keys.1 first]
        intro key member
        have later := same key (List.mem_cons_of_mem _ member)
        have differs : entry.1 ≠ key := fun equal => nodup.1 (equal ▸ member)
        rwa [lookupEntry, lookupEntry, if_neg differs, if_neg (keys.1 ▸ differs)] at later

theorem ext_of_get? {dict other : OrderedDict Key Value} (keys : dict.keys = other.keys)
    (same : ∀ key ∈ dict.keys, dict.get? key = other.get? key) : dict = other := by
  obtain ⟨entries, nodup⟩ := dict
  obtain ⟨others, nodup'⟩ := other
  obtain rfl : entries = others := entries_eq_of_get? nodup keys same
  rfl

end OrderedDict

namespace JsObject

theorem filterKeys_keys (object : JsObject) (keep : String → Bool) :
    (object.filterKeys keep).keys = object.keys.filter keep :=
  (List.filter_map ..).symm

theorem filterKeys_get? (object : JsObject) {keep : String → Bool} {key : String}
    (kept : keep key = true) : (object.filterKeys keep).get? key = object.get? key := by
  ext value
  rw [OrderedDict.get?_eq_some_iff, OrderedDict.get?_eq_some_iff]
  exact (List.mem_filter.trans (and_iff_left kept))

/-- A source whose kept fields are there already leaves the kept names as they are. -/
theorem spread_keys_filter {object source : JsObject} {keep : String → Bool}
    (there : ∀ key ∈ source.keys, keep key = true → key ∈ object.keys) :
    (object.spread source).keys.filter keep = object.keys.filter keep := by
  obtain ⟨entries, nodup⟩ := source
  change ∀ key ∈ entries.map Prod.fst, keep key = true → key ∈ object.keys at there
  change (entries.foldl _ object).keys.filter keep = _
  clear nodup
  induction entries generalizing object with
  | nil => rfl
  | cons entry entries ih =>
      rw [List.foldl_cons, ih]
      · rw [OrderedDict.keys_set]
        split
        · rfl
        · next absent =>
            have dropped : keep entry.1 = false := by
              by_contra kept
              exact absent (there entry.1 List.mem_cons_self (by simpa using kept))
            rw [List.filter_append, List.filter_singleton, dropped, cond_false, List.append_nil]
      · intro key member kept
        exact OrderedDict.mem_keys_set.mpr (.inr (there key (List.mem_cons_of_mem _ member) kept))

end JsObject

namespace InterruptToolCalls

open SensitiveDisplay (redactSensitiveRecord)

theorem equivalentToolArgs_iff {left right : JsObject} :
    equivalentToolArgs left right = true ↔ stripHitLMetadata left = stripHitLMetadata right := by
  constructor
  · intro equivalent
    have entries := JsValue.eq_of_sameFields equivalent
    generalize stripHitLMetadata left = first at entries
    generalize stripHitLMetadata right = second at entries
    obtain ⟨fields, nodup⟩ := first
    obtain ⟨others, nodup'⟩ := second
    obtain rfl : fields = others := entries
    rfl
  · intro equal
    rw [equivalentToolArgs, equal]
    exact JsValue.sameFields_refl _

/-- A question that takes over equivalent arguments is equivalent to what it makes of them. -/
theorem stripHitLMetadata_spread {existing synthetic : JsObject}
    (equivalent : equivalentToolArgs existing synthetic = true) :
    stripHitLMetadata (existing.spread synthetic) = stripHitLMetadata synthetic := by
  let keep : String → Bool := fun key => !hitlMetadataKeys.contains key
  have names : (existing.filterKeys keep).keys = (synthetic.filterKeys keep).keys := by
    have stripped := congrArg (fun dict => dict.entries.map Prod.fst)
      (equivalentToolArgs_iff.mp equivalent)
    exact (SensitiveDisplay.redactFields_names _).symm.trans
      (stripped.trans (SensitiveDisplay.redactFields_names _))
  rw [JsObject.filterKeys_keys, JsObject.filterKeys_keys] at names
  have there : ∀ key ∈ synthetic.keys, keep key = true → key ∈ existing.keys := by
    intro key member kept
    have filtered : key ∈ synthetic.keys.filter keep := List.mem_filter.mpr ⟨member, kept⟩
    rw [← names] at filtered
    exact (List.mem_filter.mp filtered).1
  have same : (existing.spread synthetic).filterKeys keep = synthetic.filterKeys keep := by
    apply OrderedDict.ext_of_get?
    · rw [JsObject.filterKeys_keys, JsObject.filterKeys_keys, JsObject.spread_keys_filter there,
        names]
    · intro key member
      rw [JsObject.filterKeys_keys, JsObject.spread_keys_filter there, names] at member
      obtain ⟨present, kept⟩ := List.mem_filter.mp member
      obtain ⟨value, found⟩ := OrderedDict.exists_get?_of_mem_keys present
      rw [JsObject.filterKeys_get? _ kept, JsObject.filterKeys_get? _ kept, JsObject.spread_get?,
        found]
      rfl
  rw [stripHitLMetadata, stripHitLMetadata]
  exact congrArg redactSensitiveRecord same

inductive Merged (merging : Merging) (synthetic : ToolCallInfo) : Placement → Merging → Prop
  | question (slot : ℕ) (existing : ToolCallInfo) (found : merging.next[slot]? = some existing)
      (asks : synthetic.name = "ask_user") (asked : existing.name = "ask_user")
      (equivalent : equivalentToolArgs existing.args synthetic.args = true) :
      Merged merging synthetic ⟨slot, .question⟩
        ⟨merging.next.set slot { existing with args := existing.args.spread synthetic.args },
          merging.replacedIndices⟩
  | approval (slot : ℕ) (existing : ToolCallInfo) (target : ApprovalTarget)
      (found : merging.next[slot]? = some existing)
      (approves : approvalTarget synthetic = some target)
      (free : slot ∉ merging.replacedIndices) (named : existing.name = target.name) :
      Merged merging synthetic ⟨slot, .approval⟩
        ⟨merging.next.set slot (withReplacementId synthetic existing),
          slot :: merging.replacedIndices⟩
  | added : Merged merging synthetic ⟨merging.next.length, .added⟩
        ⟨merging.next ++ [synthetic], merging.replacedIndices⟩

theorem modify_eq_set {Item : Type*} {items : List Item} {index : ℕ} {item : Item}
    (found : items[index]? = some item) (update : Item → Item) :
    items.modify index update = items.set index (update item) := by
  rw [List.modify_eq_set_getElem?, found]
  rfl

theorem merge_spec (merging : Merging) (synthetic : ToolCallInfo) :
    Merged merging synthetic (placement merging synthetic) (merge merging synthetic) := by
  unfold merge placement
  cases asked : questionSlot merging synthetic with
  | some slot =>
      dsimp only
      unfold questionSlot at asked
      split at asked
      · next asks =>
          obtain ⟨-, accepted⟩ := lastIndex_spec asked
          obtain ⟨existing, found, matching⟩ := (Option.any_eq_true ..).mp accepted
          rw [Bool.and_eq_true, decide_eq_true_eq] at matching
          rw [modify_eq_set found]
          exact .question slot existing found asks (matching.1.trans asks) matching.2
      · cases asked
  | none =>
      dsimp only
      cases approved : approvalSlot merging synthetic with
      | some slot =>
          obtain ⟨target, approves, last⟩ := Option.bind_eq_some_iff.mp approved
          have accepted := (lastIndex_spec last).2
          rw [isApprovalSlot, Bool.and_eq_true, Bool.not_eq_true'] at accepted
          obtain ⟨existing, found, matching⟩ := (Option.any_eq_true ..).mp accepted.2
          rw [Bool.and_eq_true, decide_eq_true_eq] at matching
          dsimp only
          rw [modify_eq_set found]
          refine .approval slot existing target found approves ?_ matching.1
          simpa using accepted.1
      | none => exact .added

namespace Merged

variable {merging next : Merging} {synthetic : ToolCallInfo} {put : Placement}

/-- The other entries stay as they are. -/
theorem unchanged (merged : Merged merging synthetic put next) {index : ℕ}
    (differs : put.slot ≠ index) : next.next[index]? = merging.next[index]? := by
  cases merged with
  | question slot existing found => exact List.getElem?_set_ne differs
  | approval slot existing target found => exact List.getElem?_set_ne differs
  | added =>
      rw [List.getElem?_append]
      split
      · rfl
      · next outside =>
          change merging.next.length ≠ index at differs
          have behind : merging.next.length < index := by omega
          rw [List.getElem?_eq_none (by rw [List.length_singleton]; omega),
            List.getElem?_eq_none behind.le]

theorem length (merged : Merged merging synthetic put next) :
    next.next.length = merging.next.length + if put.rule = .added then 1 else 0 := by
  cases merged with
  | question => exact List.length_set
  | approval => exact List.length_set
  | added => exact List.length_append

inductive Entry (synthetic : ToolCallInfo) : Rule → ToolCallInfo → Prop
  | question (existing : ToolCallInfo) : Entry synthetic .question
      { existing with args := existing.args.spread synthetic.args }
  | approval (existing : ToolCallInfo) (target : ApprovalTarget)
      (approves : approvalTarget synthetic = some target) :
      Entry synthetic .approval (withReplacementId synthetic existing)
  | added : Entry synthetic .added synthetic

theorem entry (merged : Merged merging synthetic put next) :
    ∃ entry, next.next[put.slot]? = some entry ∧ Entry synthetic put.rule entry := by
  cases merged with
  | question slot existing found =>
      have inside := (List.getElem?_eq_some_iff.mp found).1
      exact ⟨_, List.getElem?_set_self inside, .question existing⟩
  | approval slot existing target found approves =>
      have inside := (List.getElem?_eq_some_iff.mp found).1
      exact ⟨_, List.getElem?_set_self inside, .approval existing target approves⟩
  | added =>
      refine ⟨synthetic, ?_, .added⟩
      rw [List.getElem?_append_right le_rfl, Nat.sub_self]
      rfl

theorem keeps_id (merged : Merged merging synthetic put next) {index : ℕ} {call : ToolCallInfo}
    {id : String} (shown : merging.next[index]? = some call) (named : call.id = some id)
    (nonempty : id ≠ "") : ∃ entry, next.next[index]? = some entry ∧ entry.id = some id := by
  by_cases same : put.slot = index
  · subst same
    cases merged with
    | question slot existing found =>
        have inside := (List.getElem?_eq_some_iff.mp found).1
        obtain rfl : existing = call := Option.some.inj (found.symm.trans shown)
        exact ⟨_, List.getElem?_set_self inside, named⟩
    | approval slot existing target found =>
        have inside := (List.getElem?_eq_some_iff.mp found).1
        obtain rfl : existing = call := Option.some.inj (found.symm.trans shown)
        refine ⟨_, List.getElem?_set_self inside, ?_⟩
        rw [withReplacementId, named, Option.some_or]
        dsimp only
        rw [if_neg nonempty]
    | added =>
        change merging.next[merging.next.length]? = some call at shown
        rw [List.getElem?_eq_none le_rfl] at shown
        cases shown
  · exact ⟨call, (merged.unchanged same).trans shown, named⟩

end Merged

section Run

variable (merging : Merging) (synthetics : List ToolCallInfo)

theorem length_placements : (placements merging synthetics).length = synthetics.length := by
  induction synthetics generalizing merging with
  | nil => rfl
  | cons synthetic synthetics ih => exact congrArg (· + 1) (ih _)

theorem merge_unchanged {index : ℕ}
    (apart : ∀ put ∈ placements merging synthetics, put.slot ≠ index) :
    (synthetics.foldl merge merging).next[index]? = merging.next[index]? := by
  induction synthetics generalizing merging with
  | nil => rfl
  | cons synthetic synthetics ih =>
      rw [List.foldl_cons, ih _ fun put later => apart put (List.mem_cons_of_mem _ later)]
      exact (merge_spec merging synthetic).unchanged (apart _ List.mem_cons_self)

theorem length_merge :
    (synthetics.foldl merge merging).next.length =
      merging.next.length +
        ((placements merging synthetics).filter fun put => put.rule = .added).length := by
  induction synthetics generalizing merging with
  | nil => rfl
  | cons synthetic synthetics ih =>
      rw [List.foldl_cons, ih, (merge_spec merging synthetic).length, placements, List.filter_cons]
      by_cases added : (placement merging synthetic).rule = .added
      · rw [if_pos added, if_pos (decide_eq_true added), List.length_cons]
        omega
      · rw [if_neg added, if_neg (by simpa using added)]
        omega

theorem merge_keeps_id {index : ℕ} {call : ToolCallInfo} {id : String}
    (shown : merging.next[index]? = some call) (named : call.id = some id) (nonempty : id ≠ "") :
    ∃ entry, (synthetics.foldl merge merging).next[index]? = some entry ∧ entry.id = some id := by
  induction synthetics generalizing merging call with
  | nil => exact ⟨call, shown, named⟩
  | cons synthetic synthetics ih =>
      obtain ⟨entry, at_index, kept⟩ := (merge_spec merging synthetic).keeps_id shown named nonempty
      exact ih _ at_index kept

theorem merge_entry {number : ℕ} {synthetic : ToolCallInfo} {put : Placement}
    (at_number : synthetics[number]? = some synthetic)
    (placed : (placements merging synthetics)[number]? = some put)
    (last : ∀ later other, number < later → (placements merging synthetics)[later]? = some other →
      other.slot ≠ put.slot) :
    ∃ entry, (synthetics.foldl merge merging).next[put.slot]? = some entry ∧
      Merged.Entry synthetic put.rule entry := by
  induction synthetics generalizing merging number with
  | nil => cases at_number
  | cons first synthetics ih =>
      rw [placements] at placed last
      rw [List.foldl_cons]
      cases number with
      | zero =>
          obtain rfl : first = synthetic := Option.some.inj at_number
          obtain rfl : placement merging first = put := Option.some.inj placed
          obtain ⟨entry, at_slot, stands⟩ := (merge_spec merging first).entry
          refine ⟨entry, ?_, stands⟩
          rw [merge_unchanged, at_slot]
          intro other member
          obtain ⟨later, at_later⟩ := List.getElem?_of_mem member
          exact last (later + 1) other (Nat.succ_pos _) at_later
      | succ number =>
          apply ih _ at_number placed
          intro later other after at_later
          exact last (later + 1) other (Nat.succ_lt_succ after) at_later

end Run

inductive Shares (earlier later : ToolCallInfo) : Prop
  | question (asked : earlier.name = "ask_user") (asks : later.name = "ask_user")
      (equivalent : equivalentToolArgs earlier.args later.args = true)
  | approval (target : ApprovalTarget) (approves : approvalTarget later = some target)
      (named : target.name = earlier.name)

variable {synthetic : ToolCallInfo}

theorem approvalTarget_name {target : ApprovalTarget}
    (approves : approvalTarget synthetic = some target) : synthetic.name = "request_approval" := by
  by_contra differs
  rw [approvalTarget, if_pos differs] at approves
  cases approves

inductive Stands (synthetic : ToolCallInfo) (replacedIndices : List ℕ) (slot : ℕ)
    (entry : ToolCallInfo) : Prop
  | replaced (taken : slot ∈ replacedIndices) (named : entry.name = "request_approval")
  | question (asks : synthetic.name = "ask_user") (named : entry.name = "ask_user")
      (stripped : stripHitLMetadata entry.args = stripHitLMetadata synthetic.args)
  | added (named : entry.name = synthetic.name) (other : synthetic.name ≠ "ask_user")

theorem withReplacementId_name (synthetic existing : ToolCallInfo) :
    (withReplacementId synthetic existing).name = synthetic.name := by
  unfold withReplacementId
  split
  · rfl
  · split
    · rfl
    · rfl

theorem Merged.stands {merging next : Merging} {put : Placement}
    (merged : Merged merging synthetic put next) :
    ∃ entry, next.next[put.slot]? = some entry ∧
      Stands synthetic next.replacedIndices put.slot entry := by
  cases merged with
  | question slot existing found asks asked equivalent =>
      have inside := (List.getElem?_eq_some_iff.mp found).1
      exact ⟨_, List.getElem?_set_self inside, .question asks asked
        (stripHitLMetadata_spread equivalent)⟩
  | approval slot existing target found approves =>
      have inside := (List.getElem?_eq_some_iff.mp found).1
      exact ⟨_, List.getElem?_set_self inside, .replaced List.mem_cons_self
        ((withReplacementId_name ..).trans (approvalTarget_name approves))⟩
  | added =>
      refine ⟨synthetic, ?_, ?_⟩
      · rw [List.getElem?_append_right le_rfl, Nat.sub_self]
        rfl
      · by_cases asks : synthetic.name = "ask_user"
        · exact .question asks asks rfl
        · exact .added rfl asks

variable {entry : ToolCallInfo}

theorem Merged.stands_later {merging next : Merging} {earlier : ToolCallInfo} {put : Placement}
    {slot : ℕ} (merged : Merged merging synthetic put next)
    (at_slot : merging.next[slot]? = some entry)
    (stands : Stands earlier merging.replacedIndices slot entry) :
    (put.slot = slot → Shares earlier synthetic) ∧
      ∃ entry, next.next[slot]? = some entry ∧ Stands earlier next.replacedIndices slot entry := by
  by_cases same : put.slot = slot
  · subst same
    cases merged with
    | question slot existing found asks asked equivalent =>
        have inside := (List.getElem?_eq_some_iff.mp found).1
        obtain rfl : existing = entry := Option.some.inj (found.symm.trans at_slot)
        cases stands with
        | replaced taken named => simp [asked] at named
        | question first named stripped =>
            have equal := equivalentToolArgs_iff.mp equivalent
            refine ⟨fun _ => .question first asks
              (equivalentToolArgs_iff.mpr (stripped.symm.trans equal)), _,
              List.getElem?_set_self inside, .question first asked ?_⟩
            rw [stripHitLMetadata_spread equivalent, ← equal, stripped]
        | added named other => exact absurd (named.symm.trans asked) other
    | approval slot existing target found approves free named =>
        have inside := (List.getElem?_eq_some_iff.mp found).1
        obtain rfl : existing = entry := Option.some.inj (found.symm.trans at_slot)
        have approval := (withReplacementId_name synthetic existing).trans
          (approvalTarget_name approves)
        cases stands with
        | replaced taken => exact absurd taken free
        | question first named' stripped =>
            exact ⟨fun _ => .approval target approves (named.symm.trans (named'.trans first.symm)),
              _, List.getElem?_set_self inside, .replaced List.mem_cons_self approval⟩
        | added named' other =>
            exact ⟨fun _ => .approval target approves (named.symm.trans named'), _,
              List.getElem?_set_self inside, .replaced List.mem_cons_self approval⟩
    | added =>
        change merging.next[merging.next.length]? = some entry at at_slot
        rw [List.getElem?_eq_none le_rfl] at at_slot
        cases at_slot
  · refine ⟨fun equal => absurd equal same, entry, (merged.unchanged same).trans at_slot, ?_⟩
    cases stands with
    | replaced taken named =>
        refine .replaced ?_ named
        cases merged with
        | question => exact taken
        | approval => exact List.mem_cons_of_mem _ taken
        | added => exact taken
    | question first named stripped => exact .question first named stripped
    | added named other => exact .added named other

theorem shares_of_stands (merging : Merging) (synthetics : List ToolCallInfo)
    {earlier : ToolCallInfo} {slot : ℕ} (at_slot : merging.next[slot]? = some entry)
    (stands : Stands earlier merging.replacedIndices slot entry) {number : ℕ} {put : Placement}
    (at_number : synthetics[number]? = some synthetic)
    (placed : (placements merging synthetics)[number]? = some put) (same : put.slot = slot) :
    Shares earlier synthetic := by
  induction synthetics generalizing merging entry number with
  | nil => cases at_number
  | cons first synthetics ih =>
      obtain ⟨shares, entry, at_slot', stands'⟩ :=
        (merge_spec merging first).stands_later at_slot stands
      cases number with
      | zero =>
          obtain rfl : first = synthetic := Option.some.inj at_number
          obtain rfl : placement merging first = put := Option.some.inj placed
          exact shares same
      | succ number => exact ih _ at_slot' stands' at_number placed

theorem shares (merging : Merging) (synthetics : List ToolCallInfo) {number other : ℕ}
    (before : number < other) {first second : ToolCallInfo} {put : Placement} {put' : Placement}
    (at_number : synthetics[number]? = some first) (at_other : synthetics[other]? = some second)
    (placed : (placements merging synthetics)[number]? = some put)
    (placed' : (placements merging synthetics)[other]? = some put') (same : put.slot = put'.slot) :
    Shares first second := by
  induction synthetics generalizing merging number other with
  | nil => cases at_number
  | cons synthetic synthetics ih =>
      obtain ⟨other, rfl⟩ : ∃ earlier, other = earlier + 1 := ⟨other - 1, by omega⟩
      cases number with
      | zero =>
          obtain rfl : synthetic = first := Option.some.inj at_number
          obtain rfl : placement merging synthetic = put := Option.some.inj placed
          obtain ⟨entry, at_slot, stands⟩ := (merge_spec merging synthetic).stands
          exact shares_of_stands _ synthetics at_slot stands at_other placed' same.symm
      | succ number =>
          exact ih _ (Nat.lt_of_succ_lt_succ before) at_number at_other placed placed'

def actionMetadata (payload : StandardInterruptPayload) (action : ActionRequest) (index : ℕ) :
    JsObject :=
  metadataForAction payload (reviewForAction action payload.reviewConfigs index) index

theorem metadataForAction_approvalId (payload : StandardInterruptPayload)
    (reviewConfig : ReviewConfig) (index : ℕ) :
    (metadataForAction payload reviewConfig index).get? "approval_id" =
      some (.string (approvalId payload index)) := by
  rw [metadataForAction, OrderedDict.get?_ofEntries_append]
  cases reviewConfig.sessionConsentEligible with
  | false => rfl
  | true => rfl

theorem metadataForAction_index (payload : StandardInterruptPayload)
    (reviewConfig : ReviewConfig) (index : ℕ) :
    (metadataForAction payload reviewConfig index).get? "hitl_action_index" =
      some (.number (toString index)) := by
  rw [metadataForAction, OrderedDict.get?_ofEntries_append]
  cases reviewConfig.sessionConsentEligible with
  | false => rfl
  | true => rfl

variable {payload : StandardInterruptPayload}

variable {action : ActionRequest}

theorem syntheticToolCall_metadata {index : ℕ} {key : String} {value : JsValue}
    (found : (actionMetadata payload action index).get? key = some value) :
    (syntheticToolCall payload action index).args.get? key = some value := by
  unfold actionMetadata at found
  unfold syntheticToolCall
  dsimp only
  split
  · rw [JsObject.spread_get?, found, Option.some_or]
  · split
    · rw [JsObject.spread_get?, found, Option.some_or]
    · rw [JsObject.spread_get?, found, Option.some_or]

theorem syntheticToolCall_id {index : ℕ}
    (approval : (syntheticToolCall payload action index).name = "request_approval") :
    (syntheticToolCall payload action index).id = some (approvalId payload index) := by
  unfold syntheticToolCall at approval ⊢
  dsimp only at approval ⊢
  split at approval
  · exact absurd approval (show authRequiredAction ≠ "request_approval" by decide)
  · next ordinary =>
      rw [if_neg ordinary]
      split
      · rfl
      · rfl

/-- An entry that stands for an action: it has the metadata of the action, and as the approval
id either that of the action or, for an approval that takes over a tool call, its own id. -/
structure Represents (payload : StandardInterruptPayload) (action : ActionRequest) (index : ℕ)
    (rule : Rule) (entry : ToolCallInfo) : Prop where
  metadata : ∀ key value, (actionMetadata payload action index).get? key = some value →
    key ≠ "approval_id" → entry.args.get? key = some value
  position : entry.args.get? "hitl_action_index" = some (.number (toString index))
  approvalId : rule ≠ .approval →
    entry.args.get? "approval_id" = some (.string (approvalId payload index))
  replacedId : rule = .approval →
    ∃ id, entry.id = some id ∧ entry.args.get? "approval_id" = some (.string id)

theorem represents_of_metadata {index : ℕ} {rule : Rule}
    (metadata : ∀ key value, (actionMetadata payload action index).get? key = some value →
      key ≠ "approval_id" ∨ rule ≠ .approval → entry.args.get? key = some value)
    (replacedId : rule = .approval →
      ∃ id, entry.id = some id ∧ entry.args.get? "approval_id" = some (.string id)) :
    Represents payload action index rule entry where
  metadata key value found differs := metadata key value found (.inl differs)
  position := metadata _ _ (metadataForAction_index ..) (.inl (by decide))
  approvalId other := metadata _ _ (metadataForAction_approvalId ..) (.inr other)
  replacedId := replacedId

theorem Merged.Entry.represents {index : ℕ} {rule : Rule}
    (stands : Merged.Entry (syntheticToolCall payload action index) rule entry) :
    Represents payload action index rule entry := by
  apply represents_of_metadata
  · intro key value found wanted
    have carried := syntheticToolCall_metadata found
    cases stands with
    | question existing => rw [JsObject.spread_get?, carried, Option.some_or]
    | added => exact carried
    | approval existing target approves =>
        have differs : key ≠ "approval_id" := wanted.resolve_right fun other => other rfl
        unfold withReplacementId
        split
        · exact carried
        · split
          · exact carried
          · rw [OrderedDict.get?_set_of_ne _ _ differs, carried]
  · rintro rfl
    obtain ⟨existing, target, approves⟩ : ∃ existing target,
        approvalTarget (syntheticToolCall payload action index) = some target ∧
          entry = withReplacementId (syntheticToolCall payload action index) existing := by
      cases stands with
      | approval existing target approves => exact ⟨existing, target, approves, rfl⟩
    obtain ⟨approves, rfl⟩ := approves
    have own := syntheticToolCall_id (approvalTarget_name approves)
    have ownApproval := syntheticToolCall_metadata
      (metadataForAction_approvalId payload (reviewForAction action payload.reviewConfigs index)
        index)
    unfold withReplacementId
    split
    · exact ⟨_, own, ownApproval⟩
    · next fallbackId found =>
        split
        · exact ⟨_, own, ownApproval⟩
        · exact ⟨fallbackId, rfl, OrderedDict.get?_set_self ..⟩

structure ShowsEveryAction (toolCalls : List ToolCallInfo) (payload : StandardInterruptPayload)
    (placed : List Placement) (merged : List ToolCallInfo) : Prop where
  everyAction : placed.length = payload.actionRequests.length
  represented : ∀ (index : ℕ) action put, payload.actionRequests[index]? = some action →
    placed[index]? = some put →
    (∀ later other, index < later → placed[later]? = some other → other.slot ≠ put.slot) →
    ∃ entry, merged[put.slot]? = some entry ∧ Represents payload action index put.rule entry
  apart : ∀ (index later : ℕ) action action' put put', index < later →
    payload.actionRequests[index]? = some action → payload.actionRequests[later]? = some action' →
    placed[index]? = some put → placed[later]? = some put' → put.slot = put'.slot →
    Shares (syntheticToolCall payload action index) (syntheticToolCall payload action' later)
  unchanged : ∀ (index : ℕ) call, toolCalls[index]? = some call →
    (∀ put ∈ placed, put.slot ≠ index) → merged[index]? = some call
  keepsIds : ∀ (index : ℕ) (call : ToolCallInfo) id, toolCalls[index]? = some call →
    call.id = some id → id ≠ "" →
    ∃ entry : ToolCallInfo, merged[index]? = some entry ∧ entry.id = some id
  length : merged.length = toolCalls.length + (placed.filter fun put => put.rule = .added).length

theorem mergeInterruptToolCalls_showsEveryAction (toolCalls : List ToolCallInfo)
    (payload : StandardInterruptPayload) :
    ShowsEveryAction toolCalls payload
      (placements { next := toolCalls } (standardInterruptToToolCalls payload))
      (mergeInterruptToolCalls toolCalls payload) := by
  have synthetic : ∀ (index : ℕ) action, payload.actionRequests[index]? = some action →
      (standardInterruptToToolCalls payload)[index]? =
        some (syntheticToolCall payload action index) := by
    intro index action at_index
    rw [standardInterruptToToolCalls, List.getElem?_mapIdx, at_index]
    rfl
  constructor
  · rw [length_placements, standardInterruptToToolCalls, List.length_mapIdx]
  · intro index action put at_index placed last
    obtain ⟨entry, at_slot, stands⟩ := merge_entry _ _ (synthetic index action at_index) placed last
    exact ⟨entry, at_slot, stands.represents⟩
  · intro index later action action' put put' before at_index at_later placed placed' same
    exact shares _ _ before (synthetic index action at_index) (synthetic later action' at_later)
      placed placed' same
  · intro index call shown apart
    exact (merge_unchanged _ _ apart).trans shown
  · intro index call id shown named nonempty
    exact merge_keeps_id _ _ shown named nonempty
  · exact length_merge _ _

def HasOwnEntries (payload : StandardInterruptPayload) (merged : List ToolCallInfo) : Prop :=
  ∃ slots : List ℕ, slots.Nodup ∧ slots.length = payload.actionRequests.length ∧
    ∀ index slot, slots[index]? = some slot →
      ∃ entry : ToolCallInfo, merged[slot]? = some entry ∧
      entry.args.get? "approval_id" = some (.string (approvalId payload index)) ∧
      entry.args.get? "hitl_action_index" = some (.number (toString index))

def writeApproval : StandardInterruptPayload where
  interruptId := "intr-file"
  actionRequests := [{ name := "write_file", args := .empty, description := none }]
  reviewConfigs := []

/-- The approval of a shown call has the id of that call. -/
theorem writeApproval_not_hasOwnEntries :
    ¬ HasOwnEntries writeApproval
      (mergeInterruptToolCalls [⟨some "toolu-1", "write_file", .empty⟩] writeApproval) := by
  rintro ⟨slots, -, length, entries⟩
  have other : (mergeInterruptToolCalls [⟨some "toolu-1", "write_file", .empty⟩] writeApproval).all
      (fun entry => !(entry.args.get? "approval_id").any
        (JsValue.same (.string (approvalId writeApproval 0)))) = true := by
    decide
  obtain ⟨slot, rfl⟩ := List.length_eq_one_iff.mp length
  obtain ⟨entry, at_slot, own, -⟩ := entries 0 slot rfl
  have differs := List.all_eq_true.mp other entry (List.mem_of_getElem? at_slot)
  rw [own, Option.any_some, JsValue.same_refl] at differs
  cases differs

end InterruptToolCalls

end NaturalMold
