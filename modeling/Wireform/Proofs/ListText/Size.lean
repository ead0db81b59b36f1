import Wireform.Proofs.ListText.Separator
/-! How large the text of a list is, in characters and in bytes.

A text bounds the numbers that stand in it: a list whose text has fewer than
2^63 bytes fits.
-/

set_option autoImplicit false

namespace Wireform.ListText

theorem utf8ByteSize_ofList (text : List Char) :
    (String.ofList text).utf8ByteSize = utf8Size text := by
  induction text with
  | nil => rfl
  | cons c rest ih =>
    rw [String.ofList_cons, String.utf8ByteSize_append, String.utf8ByteSize_singleton, ih]
    rfl

theorem utf8ByteSize_eq (text : String) : text.utf8ByteSize = utf8Size text.toList := by
  rw [← utf8ByteSize_ofList, String.ofList_toList]

theorem length_le_utf8Size (text : List Char) : text.length ≤ utf8Size text := by
  induction text with
  | nil => exact Nat.le_refl 0
  | cons c rest ih =>
    have positive := c.utf8Size_pos
    rw [utf8Size, List.length_cons]
    omega

theorem utf8Size_le (text : List Char) : utf8Size text ≤ 4 * text.length := by
  induction text with
  | nil => exact Nat.le_refl 0
  | cons c rest ih =>
    have bound := c.utf8Size_le_four
    rw [utf8Size, List.length_cons]
    omega

theorem length_elementText_pos (pre post : List Char) (element : Option (List Char)) :
    0 < (elementText pre post element).length := by
  have digits (n : Int) : 0 < (Decimal.intText n).length :=
    List.length_pos_iff.mpr (Decimal.denotes_intText n).nonempty
  cases element with
  | none =>
    have := digits (-1)
    simp only [elementText, numberField, List.length_append]
    omega
  | some content =>
    have := digits content.length
    simp only [elementText, numberField, List.length_append]
    omega

/-- The text of elements is no shorter than they are many or one of them is long. -/
theorem length_le_flatMap (pre post : List Char) (list : List (Option (List Char))) :
    list.length ≤ (list.flatMap (elementText pre post)).length ∧
      ∀ content, some content ∈ list →
        content.length ≤ (list.flatMap (elementText pre post)).length := by
  induction list with
  | nil => simp
  | cons element rest ih =>
    have positive := length_elementText_pos pre post element
    rw [List.flatMap_cons, List.length_append, List.length_cons]
    refine ⟨by omega, fun content member => ?_⟩
    rcases List.mem_cons.mp member with rfl | later
    · simp only [elementText, List.length_append]
      omega
    · exact Nat.le_add_left_of_le (ih.2 content later)

theorem fits_of_write {text pre : String} {post : Option String} {list : List (Option String)}
    (written : write list pre post = .ok text) (small : text.utf8ByteSize < 2 ^ 63) : Fits list := by
  have whole := toList_of_write written
  rw [Spelling.text_canonical, listText] at whole
  have size : text.toList.length < 2 ^ 63 := by
    rw [utf8ByteSize_eq] at small
    exact Nat.lt_of_le_of_lt (length_le_utf8Size _) small
  rw [whole, List.length_append] at size
  obtain ⟨count, lengths⟩ := length_le_flatMap pre.toList (post.getD "").toList
    (list.map (·.map String.toList))
  rw [List.length_map] at count
  refine ⟨by omega, fun element member => ?_⟩
  have length := lengths element.toList (List.mem_map.mpr ⟨some element, member, rfl⟩)
  rw [String.length_toList] at length
  omega

end Wireform.ListText
