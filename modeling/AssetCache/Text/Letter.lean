namespace AssetCache.Text

def lower (cs : List Char) : List Char := cs.map Char.toLower

def sameLetters (a b : String) : Bool := lower a.toList == lower b.toList

theorem sameLetters_comm (a b : String) : sameLetters a b = sameLetters b a := by
  rw [Bool.eq_iff_iff]
  simp only [sameLetters, beq_iff_eq]
  exact eq_comm

end AssetCache.Text
