import Holdfast.Bytes

namespace Holdfast.Bytes

theorem toList_loop (bytes : ByteArray) (i : Nat) (front : Bytes) :
    ByteArray.toList.loop bytes i front = front.reverse ++ bytes.data.toList.drop i := by
  fun_induction ByteArray.toList.loop bytes i front with
  | case1 i front hlt ih =>
    have hi : i < bytes.data.toList.length := hlt
    rw [ih, List.drop_eq_getElem_cons hi]
    simp [ByteArray.get!, hlt]
  | case2 i front hge =>
    have hend : bytes.data.toList.drop i = [] := List.drop_eq_nil_iff.mpr (Nat.le_of_not_lt hge)
    rw [hend, List.append_nil]

theorem ofText_eq (s : String) : ofText s = s.toByteArray.data.toList := toList_loop _ 0 []

/-- The bytes of one text after another. -/
theorem ofText_append (s t : String) : ofText (s ++ t) = ofText s ++ ofText t := by
  simp only [ofText_eq, String.toByteArray_append, ByteArray.toList_data_append]

end Holdfast.Bytes
