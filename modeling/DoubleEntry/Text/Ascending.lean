/-! # Texts in ascending order

A list of texts in which each one stands once, ordered by code points. It is
built by inserting texts one at a time.
-/

namespace DoubleEntry.Ascending

def insert (text : String) : List String → List String
  | [] => [text]
  | first :: rest =>
    if text < first then text :: first :: rest
    else if text = first then first :: rest
    else first :: insert text rest

def ofList (texts : List String) : List String := texts.foldr insert []

theorem mem_insert {text x : String} {texts : List String} :
    x ∈ insert text texts ↔ x = text ∨ x ∈ texts := by
  induction texts with
  | nil => simp [insert]
  | cons first rest ih =>
    unfold insert
    split
    · simp
    · split
      · next h => simp [h]
      · simp only [List.mem_cons, ih, or_left_comm]

@[simp] theorem mem_ofList {x : String} {texts : List String} : x ∈ ofList texts ↔ x ∈ texts := by
  induction texts with
  | nil => simp [ofList]
  | cons first rest ih =>
    have h : ofList (first :: rest) = insert first (ofList rest) := rfl
    rw [h, mem_insert, ih, List.mem_cons]

theorem pairwise_insert {text : String} {texts : List String} (h : texts.Pairwise (· < ·)) :
    (insert text texts).Pairwise (· < ·) := by
  induction texts with
  | nil => simp [insert]
  | cons first rest ih =>
    obtain ⟨hfirst, hrest⟩ := List.pairwise_cons.1 h
    unfold insert
    split
    · next hlt =>
      refine List.pairwise_cons.2 ⟨?_, h⟩
      intro x hx
      rcases List.mem_cons.1 hx with rfl | hx
      · exact hlt
      · exact String.lt_trans hlt (hfirst x hx)
    · next hlt =>
      split
      · exact h
      · next hne =>
        refine List.pairwise_cons.2 ⟨?_, ih hrest⟩
        intro x hx
        rcases mem_insert.1 hx with rfl | hx
        · exact String.not_le.1 fun hle => hne (String.le_antisymm hle (String.not_lt.1 hlt))
        · exact hfirst x hx

theorem pairwise_ofList (texts : List String) : (ofList texts).Pairwise (· < ·) := by
  induction texts with
  | nil => exact List.Pairwise.nil
  | cons first rest ih => exact pairwise_insert ih

theorem nodup_ofList (texts : List String) : (ofList texts).Nodup := by
  refine (pairwise_ofList texts).imp fun hlt => ?_
  rintro rfl
  exact String.lt_irrefl _ hlt

/-- The list does not depend on the order of the texts it is made of. -/
theorem ofList_perm {texts others : List String} (h : texts.Perm others) :
    ofList texts = ofList others := by
  have hmem : (ofList texts).Perm (ofList others) := by
    refine (List.perm_ext_iff_of_nodup (nodup_ofList texts) (nodup_ofList others)).2 fun text => ?_
    rw [mem_ofList, mem_ofList, h.mem_iff]
  refine hmem.eq_of_pairwise (fun _ _ _ _ hab hba => ?_) (pairwise_ofList texts)
    (pairwise_ofList others)
  exact absurd hba (String.lt_asymm hab)

end DoubleEntry.Ascending
