import LazyFields.Proofs.Accessor
import LazyFields.Proofs.Scan
import LazyFields.Proofs.Text.AsciiBytes

/-!
# Accessors in the bytes of a source

The call of an accessor is a text of ASCII.  A source is therefore found to call exactly the
accessors whose calls stand in its bytes, whether or not these are the bytes of a text.
-/
namespace LazyFields
open Text

theorem lt_of_mem_accessorCall {name : Text} (h : Exported name) :
    ∀ c ∈ accessorCall name, c.toNat < 0x80 := by
  have front : ∀ c ∈ ".Get".toList, c.toNat < 0x80 := by simp
  have back : ∀ c ∈ "()".toList, c.toNat < 0x80 := by simp
  intro c hc
  rcases List.mem_append.1 hc with hc | hc
  · exact front c hc
  · rcases List.mem_append.1 hc with hc | hc
    · exact lt_of_isWord (h.row.2 c hc)
    · exact back c hc

namespace Scan
variable {settings : ScanSettings}

/-- A visit adds accessors only if its bytes are read, and then those whose calls stand in them,
byte by byte: no other bytes hide a call, and none make one up. -/
theorem mem_accessors_push {v : Visit} {o : Outcome}
    (h : Becomes settings.extensions settings.maxFileSize.toNat v o) (rules : NamingRules)
    (root : Text) (s : Scan) (name : Text) :
    name ∈ (push settings rules root s v).usage.accessors ↔ name ∈ s.usage.accessors ∨
      ∃ bytes ∈ o.bytes?, Exported name ∧
        (Utf8.encode (accessorCall name)).data.toList <:+: bytes.data.toList := by
  have added : Accounts settings rules root [o] s _ := accounts_push h s
  have read (bytes : ByteArray) : bytes ∈ [o].filterMap Outcome.bytes? ↔ bytes ∈ o.bytes? := by
    simp
  rw [added.usage, mem_foldl_accessors]
  simp only [List.mem_map, exists_exists_and_eq_and, read]
  refine or_congr_right (exists_congr fun bytes => and_congr_right fun _ => ?_)
  rw [mem_accessorCalls_iff]
  exact and_congr_right fun exported =>
    Utf8.infix_decodeLenient_iff (lt_of_mem_accessorCall exported) _

/-- A character that is broken off stands before the first call and a surrogate behind it.  Bytes
that are no character stand inside of the other two. -/
def illFormed : ByteArray :=
  ⟨([0xE2, 0x82] ++ ".GetA()".toUTF8.data.toList ++ [0xED, 0xA0, 0x80] ++
    ".Get".toUTF8.data.toList ++ [0xFF] ++ "B()".toUTF8.data.toList ++
    ".GetC(".toUTF8.data.toList ++ [0xC0, 0x80] ++ ")".toUTF8.data.toList).toArray⟩

/-- The whole call is found and the broken ones are not. -/
theorem accessors_of_illFormed :
    let settings := ({} : ScanConfig).settings
    let v : Visit := .file (Walk.bytesOf "a.go".toList) (.ok illFormed.size) (.ok illFormed)
    let scan := push settings ({} : NamingConfig).rules "r".toList {} v
    Becomes settings.extensions settings.maxFileSize.toNat v (.read illFormed) ∧
      "A".toList ∈ scan.usage.accessors ∧
      "B".toList ∉ scan.usage.accessors ∧ "C".toList ∉ scan.usage.accessors := by
  intro settings v scan
  have becomes : Becomes settings.extensions settings.maxFileSize.toNat v (.read illFormed) :=
    .read _ (by decide +kernel) (by decide +kernel)
  have found := mem_accessors_push becomes ({} : NamingConfig).rules "r".toList {}
  have broken (name : Text)
      (apart : ¬(Utf8.encode (accessorCall name)).data.toList <:+: illFormed.data.toList) :
      name ∉ scan.usage.accessors := by
    rw [found]
    rintro (before | ⟨bytes, read, -, inside⟩)
    · exact NameSet.mem_empty before
    · exact apart (Option.some.inj read ▸ inside)
  have exported : Exported "A".toList := ⟨'A', [], rfl, rfl, by simp⟩
  refine ⟨becomes, (found _).2 (.inr ⟨_, rfl, exported, ?_⟩), broken _ ?_, broken _ ?_⟩
  · decide +kernel
  · decide +kernel
  · decide +kernel

end Scan
end LazyFields
