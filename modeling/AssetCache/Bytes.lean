namespace AssetCache

instance (priority := 2000) decidableEqBytes : DecidableEq ByteArray := fun a b =>
  decidable_of_iff (a.data = b.data) ⟨fun h => by cases a; cases b; exact congrArg _ h, congrArg _⟩

end AssetCache
