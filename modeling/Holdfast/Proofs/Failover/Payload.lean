import Holdfast.Proofs.Endpoint
import Holdfast.Proofs.Failover.News

namespace Holdfast.Failover

open Text

/-- What stands for the master of a shard that has had none. -/
def nobody : Endpoint := ⟨"-", 0⟩

namespace Announcement

theorem readEndpoint_decimal {e : Endpoint} (h : e.host.toList ≠ []) :
    readEndpoint e.host.toList (decimal e.port.toNat) = .ok e := by
  unfold readEndpoint Endpoint.ofParts
  rw [Endpoint.readPort?_decimal]
  simp [h, Except.mapError, String.ofList_toList]

theorem toList_payload (shard : String) (old : Option Endpoint) (new : Endpoint) :
    (payload shard old new).toList = shard.toList ++ ' ' :: ((old.getD nobody).host.toList ++
      ' ' :: (decimal (old.getD nobody).port.toNat ++ ' ' :: (new.host.toList ++
        ' ' :: decimal new.port.toNat))) := by
  have htext : ∀ s : String, toString s = s := fun _ => rfl
  cases old with
  | none => simp [payload, nobody, htext, decimal]
  | some e => simp [payload, htext, decimal]

/-- A payload has the words of its name, and then four of its own. -/
theorem words_payload (shard : String) {old : Option Endpoint} {new : Endpoint}
    (hold : ∀ e, old = some e → IsWord e.host.toList) (hnew : IsWord new.host.toList) :
    words (payload shard old new).toList = words shard.toList ++
      [(old.getD nobody).host.toList, decimal (old.getD nobody).port.toNat, new.host.toList,
        decimal new.port.toNat] := by
  have hold' : IsWord (old.getD nobody).host.toList := by
    cases old with
    | none => decide
    | some e => exact hold e rfl
  have hblank : isBlank ' ' = true := rfl
  rw [toList_payload, words_split _ hblank, words_append hold' hblank,
    words_append (isWord_decimal _) hblank, words_append hnew hblank, words_word (isWord_decimal _)]

/-- A name that is one word, whatever blanks are around it, is read back with its endpoints. -/
theorem parse_payload_of_words {shard name : String} {old : Option Endpoint} {new : Endpoint}
    (hname : words shard.toList = [name.toList])
    (hold : ∀ e, old = some e → IsWord e.host.toList) (hnew : IsWord new.host.toList) :
    parse (payload shard old new) = .ok ⟨name, old.getD nobody, new⟩ := by
  have hold' : (old.getD nobody).host.toList ≠ [] := by
    cases old with
    | none => decide
    | some e => exact (hold e rfl).1
  unfold parse
  rw [words_payload shard hold hnew, hname, List.singleton_append]
  dsimp only
  rw [readEndpoint_decimal hold', readEndpoint_decimal hnew.1, String.ofList_toList]
  rfl

/-- An announcement is read back from its payload, where no blank comes into its words. -/
theorem parse_payload {shard : String} {old : Option Endpoint} {new : Endpoint}
    (hshard : IsWord shard.toList) (hold : ∀ e, old = some e → IsWord e.host.toList)
    (hnew : IsWord new.host.toList) :
    parse (payload shard old new) = .ok ⟨shard, old.getD nobody, new⟩ :=
  parse_payload_of_words (words_word hshard) hold hnew

end Announcement

theorem known?_payload {names : List String} {shard : String} {old : Option Endpoint}
    {new : Endpoint} (hmem : shard ∈ names) (hshard : IsWord shard.toList)
    (hold : ∀ e, old = some e → IsWord e.host.toList) (hnew : IsWord new.host.toList) :
    known? names (Announcement.payload shard old new) = some ⟨shard, old.getD nobody, new⟩ := by
  unfold known?
  rw [Announcement.parse_payload hshard hold hnew]
  exact if_pos hmem

end Holdfast.Failover
