import Frankenrust.Context.Headers

/-! The header map as an ordered multimap: insertion appends to the values of one name,
and names that are tokens are told apart up to ASCII case only. -/
namespace Frankenrust.Context

def lowercase (name : Bytes) : Bytes := name.map toAsciiLowercase

theorem byte_cases {P : UInt8 → Prop} (every : ∀ n : Fin 256, P (UInt8.ofNat n.val)) (byte : UInt8) : P byte := by
  have found := every ⟨byte.toNat,byte.toNat_lt⟩
  simpa using found

theorem lower_upper (byte : UInt8) : toAsciiLowercase (toAsciiUppercase byte) = toAsciiLowercase byte :=
  byte_cases (P := fun byte => toAsciiLowercase (toAsciiUppercase byte) = toAsciiLowercase byte)
    (by decide +kernel) byte

theorem lower_byte (byte : UInt8) :
    toAsciiLowercase (toAsciiLowercase byte) = toAsciiLowercase byte ∧
      toAsciiUppercase (toAsciiLowercase byte) = toAsciiUppercase byte ∧
      (toAsciiLowercase byte == 0x2d) = (byte == 0x2d) ∧
      isHeaderFieldByte (toAsciiLowercase byte) = isHeaderFieldByte byte ∧
      (isHeaderFieldByte byte = true → byte < 0x80) := by
  revert byte
  exact byte_cases (by decide +kernel)

theorem lowercase_canonicalFrom (upperNext : Bool) (name : Bytes) :
    lowercase (canonicalFrom upperNext name) = lowercase name := by
  induction name generalizing upperNext with
  | nil => rfl
  | cons byte rest ih =>
    have tail := ih (byte == 0x2d)
    simp only [lowercase,canonicalFrom,List.map_cons] at tail ⊢
    rw [tail]
    split
    · rw [lower_upper]
    · rw [(lower_byte byte).1]

theorem lowercase_canonical (name : Bytes) : lowercase (canonicalHeaderName name) = lowercase name := by
  unfold canonicalHeaderName
  split
  · rfl
  · exact lowercase_canonicalFrom true name

theorem canonicalFrom_lowercase (upperNext : Bool) (name : Bytes) :
    canonicalFrom upperNext (lowercase name) = canonicalFrom upperNext name := by
  induction name generalizing upperNext with
  | nil => rfl
  | cons byte rest ih =>
    obtain ⟨lower,upper,hyphen,_⟩ := lower_byte byte
    simp only [lowercase,List.map_cons,canonicalFrom] at ih ⊢
    rw [lower,upper,hyphen,ih]

theorem fields_lowercase (name : Bytes) :
    (lowercase name).all isHeaderFieldByte = name.all isHeaderFieldByte := by
  simp only [lowercase,List.all_map,Function.comp_def,(lower_byte _).2.2.2.1]

theorem isToken_lowercase (name : Bytes) : isToken (lowercase name) = isToken name := by
  cases name with
  | nil => rfl
  | cons byte rest =>
    have fields := fields_lowercase (byte :: rest)
    simp only [isToken,fields]
    rfl

theorem token_fields {name : Bytes} (token : isToken name = true) : name.all isHeaderFieldByte = true := by
  simp only [isToken,Bool.and_eq_true] at token
  exact token.2

theorem canonical_of_lowercase {first second : Bytes} (plain : first.all isHeaderFieldByte = true)
    (same : lowercase first = lowercase second) : canonicalHeaderName first = canonicalHeaderName second := by
  have other : second.all isHeaderFieldByte = true := by
    rw [← fields_lowercase,← same,fields_lowercase,plain]
  unfold canonicalHeaderName
  rw [plain,other]
  simp only [Bool.not_true,Bool.false_eq_true,if_false]
  rw [← canonicalFrom_lowercase,same,canonicalFrom_lowercase]

theorem canonical_canonical (name : Bytes) :
    canonicalHeaderName (canonicalHeaderName name) = canonicalHeaderName name := by
  cases plain : name.all isHeaderFieldByte with
  | true =>
    apply canonical_of_lowercase _ (lowercase_canonical name)
    rw [← fields_lowercase,lowercase_canonical,fields_lowercase,plain]
  | false => simp [canonicalHeaderName,plain]

theorem token_ascii {name : Bytes} (token : isToken name = true) : ∀ byte ∈ name, byte < 0x80 := by
  intro byte member
  simp only [isToken,Bool.and_eq_true,List.all_eq_true] at token
  exact (lower_byte byte).2.2.2.2 (token.2 byte member)

def names (entries : List (Bytes × List Bytes)) : List Bytes := entries.map (·.1)

theorem names_insertEntry (canon value : Bytes) (entries : List (Bytes × List Bytes)) :
    names (insertEntry canon value entries) =
      if canon ∈ names entries then names entries else names entries ++ [canon] := by
  induction entries with
  | nil => rfl
  | cons entry rest ih =>
    obtain ⟨name,values⟩ := entry
    by_cases same : name = canon
    · simp [insertEntry,names,same]
    · have tail : names (insertEntry canon value ((name,values) :: rest)) =
          name :: names (insertEntry canon value rest) := by simp [insertEntry,same,names]
      have head : names ((name,values) :: rest) = name :: names rest := rfl
      rw [tail,head,ih]
      by_cases known : canon ∈ names rest <;> simp [known,Ne.symm same]

def selected (wanted : Bytes → Bool) (entries : List (Bytes × List Bytes)) : List Bytes :=
  entries.flatMap fun entry => if wanted entry.1 then entry.2 else []

theorem selected_insertEntry (wanted : Bytes → Bool) (canon value : Bytes)
    (entries : List (Bytes × List Bytes)) (distinct : (names entries).Nodup)
    (single : ∀ name ∈ names entries, wanted name = true → wanted canon = true → name = canon) :
    selected wanted (insertEntry canon value entries) =
      selected wanted entries ++ if wanted canon then [value] else [] := by
  induction entries with
  | nil => simp [selected,insertEntry]
  | cons entry rest ih =>
    obtain ⟨name,values⟩ := entry
    have nodup : name ∉ names rest ∧ (names rest).Nodup := List.nodup_cons.mp distinct
    have later := ih nodup.2 fun other member => single other (List.mem_cons_of_mem _ member)
    by_cases same : name = canon
    · subst same
      cases chosen : wanted name with
      | false => simp [insertEntry,selected,chosen]
      | true =>
        -- no later entry is selected, so the end of this one is the end of all
        have none_later : selected wanted rest = [] := by
          simp only [selected,List.flatMap_eq_nil_iff]
          intro entry member
          have other : wanted entry.1 ≠ true := by
            intro also
            have found : entry.1 ∈ names rest := List.mem_map_of_mem member
            exact nodup.1 (single entry.1 (List.mem_cons_of_mem _ found) also chosen ▸ found)
          simp [other]
        simp only [selected] at none_later
        simp [insertEntry,selected,chosen,none_later]
    · simp only [selected] at later
      simp [insertEntry,selected,same,later]

/-- Every stored name is canonical and stored once. -/
structure Stored (headers : Headers) : Prop where
  distinct : (names headers.entries).Nodup
  canonical : ∀ name ∈ names headers.entries, canonicalHeaderName name = name

theorem stored_empty : Stored Headers.empty := ⟨List.nodup_nil,fun _ member => by contradiction⟩

theorem stored_insert {headers : Headers} (stored : Stored headers) (name value : Bytes) :
    Stored (headers.insert name value) := by
  have shape := names_insertEntry (canonicalHeaderName name) value headers.entries
  constructor
  · rw [Headers.insert,shape]
    split
    · exact stored.distinct
    next fresh =>
      refine List.nodup_append.mpr ⟨stored.distinct,by simp,?_⟩
      intro known member added found same
      rw [same,List.mem_singleton.mp found] at member
      exact fresh member
  · intro other member
    rw [Headers.insert,shape] at member
    split at member
    · exact stored.canonical other member
    · rcases List.mem_append.mp member with known | added
      · exact stored.canonical other known
      · rw [List.mem_singleton.mp added,canonical_canonical]

end Frankenrust.Context
