import Mathlib.Data.List.Basic

/-!
# Events that must not follow others

Each event names its rivals; in a log that is kept apart, no event comes after one of its rivals.
-/

namespace NaturalMold.RivalEvents

variable {Event : Type*}

def Apart (rivals : Event → List Event) (log : List Event) : Prop :=
  log.Pairwise fun earlier later => earlier ∉ rivals later

variable {rivals : Event → List Event} {log : List Event}

theorem apart_nil : Apart rivals [] :=
  List.Pairwise.nil

theorem Apart.append (apart : Apart rivals log) {new : List Event} (fresh : Apart rivals new)
    (free : ∀ event ∈ new, ∀ rival ∈ rivals event, rival ∉ log) : Apart rivals (log ++ new) := by
  refine List.pairwise_append.mpr ⟨apart, fresh, ?_⟩
  intro earlier member later added rival
  exact free later added earlier rival member

theorem Apart.concat (apart : Apart rivals log) (event : Event)
    (free : ∀ rival ∈ rivals event, rival ∉ log) : Apart rivals (log ++ [event]) := by
  refine apart.append (List.pairwise_singleton _ _) fun added member => ?_
  rw [List.mem_singleton.mp member]
  exact free

theorem Apart.append_of_free (apart : Apart rivals log) {new : List Event}
    (free : ∀ event ∈ new, rivals event = []) : Apart rivals (log ++ new) := by
  refine apart.append ?_ fun event member rival isRival => ?_
  · refine List.Pairwise.imp_of_mem ?_ (List.pairwise_of_forall fun _ _ => trivial)
    intro earlier later _ added _
    rw [free later added]
    exact List.not_mem_nil
  · rw [free event member] at isRival
    exact absurd isRival List.not_mem_nil

theorem Apart.notMem_rivals (apart : Apart rivals log) {earlier later : Event}
    (ordered : [earlier, later].Sublist log) : earlier ∉ rivals later :=
  List.Pairwise.forall_sublist apart ordered

theorem apart_of_owners {Owner : Type*} [DecidableEq Owner] {owner : Event → Owner}
    (own : ∀ event, ∀ rival ∈ rivals event, owner rival = owner event)
    (apart : ∀ one, Apart rivals (log.filter fun event => owner event = one)) :
    Apart rivals log := by
  refine List.pairwise_of_forall_sublist fun {earlier later} ordered rival => ?_
  have ofOwner := ordered.filter fun event => owner event = owner later
  rw [List.filter_eq_self.mpr (by simp [own later earlier rival])] at ofOwner
  exact (apart (owner later)).notMem_rivals ofOwner rival

end NaturalMold.RivalEvents
