import StakePoolFogo.JsLegacy.Builders
import StakePoolFogo.Py.Instructions

/-!
# Token metadata from JavaScript

`tokenMetadataLayout` sizes its blobs by the UTF-16 length of the strings, the buffers that go into them
are UTF-8.  How the layout library encodes a blob is a parameter.
-/

open StakePoolFogo.Borsh StakePoolFogo.Codec

namespace StakePoolFogo.JsLegacy

/-- A blob layout of some length encodes a buffer of that length as it is, and no other. -/
structure BlobLaws (blobEncode : Nat → List UInt8 → Except JsError (List UInt8)) : Prop where
  encode {length : Nat} {src : List UInt8} : src.length = length → blobEncode length src = .ok src
  reject {length : Nat} {src : List UInt8} : src.length ≠ length → ∃ e, blobEncode length src = .error e

section Survives

variable {blobEncode : Nat → List UInt8 → Except JsError (List UInt8)} {instruction : UInt8}
  {name symbol uri : String} {type : MetadataLayout} {data : List UInt8}

theorem BlobLaws.encode_eq_ok (laws : BlobLaws blobEncode) {length : Nat} {src out : List UInt8} :
    blobEncode length src = .ok out ↔ src.length = length ∧ out = src := by
  by_cases hlength : src.length = length
  · rw [laws.encode hlength, Except.ok.injEq]
    exact ⟨fun h => ⟨hlength, h.symm⟩, fun h => h.2.symm⟩
  · obtain ⟨e, he⟩ := laws.reject hlength
    rw [he]
    exact ⟨fun h => (by cases h), fun h => absurd h.1 hlength⟩

theorem tokenMetadataLayout_eq_ok {nameLength symbolLength uriLength : Nat} :
    tokenMetadataLayout instruction nameLength symbolLength uriLength = .ok type ↔
      nameLength ≤ metadataMaxNameLength ∧ symbolLength ≤ metadataMaxSymbolLength ∧
      uriLength ≤ metadataMaxUriLength ∧ type = ⟨instruction, nameLength, symbolLength, uriLength⟩ := by
  unfold tokenMetadataLayout
  by_cases hname : nameLength ≤ metadataMaxNameLength
  · by_cases hsymbol : symbolLength ≤ metadataMaxSymbolLength
    · by_cases huri : uriLength ≤ metadataMaxUriLength
      · rw [if_neg (Nat.not_lt.mpr hname), if_neg (Nat.not_lt.mpr hsymbol), if_neg (Nat.not_lt.mpr huri)]
        refine ⟨fun h => ⟨hname, hsymbol, huri, ?_⟩, fun h => ?_⟩
        · cases h
          rfl
        · rw [h.2.2.2]
          rfl
      · rw [if_neg (Nat.not_lt.mpr hname), if_neg (Nat.not_lt.mpr hsymbol), if_pos (Nat.not_le.mp huri)]
        exact ⟨fun h => (by cases h), fun h => absurd h.2.2.1 huri⟩
    · rw [if_neg (Nat.not_lt.mpr hname), if_pos (Nat.not_le.mp hsymbol)]
      exact ⟨fun h => (by cases h), fun h => absurd h.2.1 hsymbol⟩
  · rw [if_pos (Nat.not_le.mp hname)]
    exact ⟨fun h => (by cases h), fun h => absurd h.1 hname⟩

/-- What is encoded is short, has as many code units as bytes, and each string follows its length. -/
theorem encodeTokenMetadata_eq_ok (laws : BlobLaws blobEncode) :
    encodeTokenMetadata blobEncode instruction name symbol uri = .ok data ↔
      (jsLength name ≤ metadataMaxNameLength ∧ jsLength symbol ≤ metadataMaxSymbolLength ∧
        jsLength uri ≤ metadataMaxUriLength) ∧
      ((utf8Buffer name).length = jsLength name ∧ (utf8Buffer symbol).length = jsLength symbol ∧
        (utf8Buffer uri).length = jsLength uri) ∧
      data = List.flatten [[instruction], leBytes 4 (jsLength name), utf8Buffer name,
        leBytes 4 (jsLength symbol), utf8Buffer symbol, leBytes 4 (jsLength uri), utf8Buffer uri] := by
  unfold encodeTokenMetadata MetadataLayout.encodeData
  simp only [Outcome.bind_eq_ok, Outcome.pure_eq_ok, tokenMetadataLayout_eq_ok, laws.encode_eq_ok]
  constructor
  · rintro ⟨_, ⟨hname, hsymbol, huri, rfl⟩, _, ⟨hnameBytes, rfl⟩, _, ⟨hsymbolBytes, rfl⟩, _,
      ⟨huriBytes, rfl⟩, rfl⟩
    exact ⟨⟨hname, hsymbol, huri⟩, ⟨hnameBytes, hsymbolBytes, huriBytes⟩, rfl⟩
  · rintro ⟨⟨hname, hsymbol, huri⟩, ⟨hnameBytes, hsymbolBytes, huriBytes⟩, rfl⟩
    exact ⟨_, ⟨hname, hsymbol, huri, rfl⟩, _, ⟨hnameBytes, rfl⟩, _, ⟨hsymbolBytes, rfl⟩, _,
      ⟨huriBytes, rfl⟩, rfl⟩

/-- A string with as many code units as bytes is read back from behind its length. -/
theorem reads_lengthAndBlob {s : String} (hbytes : (utf8Buffer s).length = jsLength s)
    (hlength : jsLength s < 2 ^ 32) :
    Reads readString (leBytes 4 (jsLength s) ++ utf8Buffer s) (utf8Buffer s) := by
  rw [← hbytes] at hlength ⊢
  exact Py.reads_string hlength

theorem reads_tokenMetadata (laws : BlobLaws blobEncode)
    (h : encodeTokenMetadata blobEncode instruction name symbol uri = .ok data)
    {i : List UInt8 → List UInt8 → List UInt8 → StakePoolInstruction}
    (hread : ∀ rest, readInstruction (instruction :: rest) = (do
      return i (← readString) (← readString) (← readString) : Reader StakePoolInstruction) rest) :
    StakePoolInstruction.tryFromSlice data = .ok (i (utf8Buffer name) (utf8Buffer symbol) (utf8Buffer uri)) := by
  obtain ⟨⟨hname, hsymbol, huri⟩, ⟨hnameBytes, hsymbolBytes, huriBytes⟩, rfl⟩ :=
    (encodeTokenMetadata_eq_ok laws).mp h
  unfold metadataMaxNameLength at hname
  unfold metadataMaxSymbolLength at hsymbol
  unfold metadataMaxUriLength at huri
  have hstrings : Reads (do return i (← readString) (← readString) (← readString))
      (List.flatten [leBytes 4 (jsLength name) ++ utf8Buffer name,
        leBytes 4 (jsLength symbol) ++ utf8Buffer symbol, leBytes 4 (jsLength uri) ++ utf8Buffer uri])
      (i (utf8Buffer name) (utf8Buffer symbol) (utf8Buffer uri)) :=
    .field (reads_lengthAndBlob hnameBytes (by omega)) <|
    .field (reads_lengthAndBlob hsymbolBytes (by omega)) <|
    .field (reads_lengthAndBlob huriBytes (by omega)) <| .pure _
  refine StakePoolInstruction.tryFromSlice_of_reads fun rest => ?_
  have hdata := hstrings rest
  simp only [List.flatten_cons, List.flatten_nil, List.append_nil, List.append_assoc, List.cons_append,
    List.nil_append] at hdata ⊢
  rw [hread]
  exact hdata

end Survives

/-- Whatever the strings: what the two builders accept is decoded to the same three strings. -/
theorem token_metadata_survives {blobEncode : Nat → List UInt8 → Except JsError (List UInt8)}
    (laws : BlobLaws blobEncode) :
    (∀ (params : CreateTokenMetadataParams) (data : List UInt8),
      createTokenMetadataData blobEncode params = .ok data →
      StakePoolInstruction.tryFromSlice data = .ok (.createTokenMetadata
        (utf8Buffer params.name) (utf8Buffer params.symbol) (utf8Buffer params.uri))) ∧
    ∀ (params : UpdateTokenMetadataParams) (data : List UInt8),
      updateTokenMetadataData blobEncode params = .ok data →
      StakePoolInstruction.tryFromSlice data = .ok (.updateTokenMetadata
        (utf8Buffer params.name) (utf8Buffer params.symbol) (utf8Buffer params.uri)) :=
  ⟨fun _ _ h => reads_tokenMetadata laws h fun _ => rfl,
    fun _ _ h => reads_tokenMetadata laws h fun _ => rfl⟩

theorem strictBlob_laws : BlobLaws strictBlob where
  encode h := if_pos h
  reject h := ⟨.typeError, if_neg h⟩

def fogoMetadata : UpdateTokenMetadataParams where
  programId := none
  stakePool := default
  manager := default
  tokenMetadata := default
  withdrawAuthority := default
  name := "Staked Fogo"
  symbol := "stFOGO"
  uri := "https://fogo.io/st"

theorem token_metadata_survives_fogo :
    ∃ data, updateTokenMetadataData strictBlob fogoMetadata = .ok data ∧
      StakePoolInstruction.tryFromSlice data = .ok (.updateTokenMetadata
        (utf8Buffer "Staked Fogo") (utf8Buffer "stFOGO") (utf8Buffer "https://fogo.io/st")) := by
  have hshort : jsLength fogoMetadata.name ≤ metadataMaxNameLength ∧
      jsLength fogoMetadata.symbol ≤ metadataMaxSymbolLength ∧
      jsLength fogoMetadata.uri ≤ metadataMaxUriLength := by decide +kernel
  have hbytes : (utf8Buffer fogoMetadata.name).length = jsLength fogoMetadata.name ∧
      (utf8Buffer fogoMetadata.symbol).length = jsLength fogoMetadata.symbol ∧
      (utf8Buffer fogoMetadata.uri).length = jsLength fogoMetadata.uri := by decide +kernel
  have haccepted : updateTokenMetadataData strictBlob fogoMetadata = .ok _ :=
    (encodeTokenMetadata_eq_ok strictBlob_laws).mpr ⟨hshort, hbytes, rfl⟩
  exact ⟨_, haccepted, (token_metadata_survives strictBlob_laws).2 fogoMetadata _ haccepted⟩

/-- An accent is one code unit but two bytes: the builder throws. -/
example : encodeTokenMetadata strictBlob 17 "Café" "CAF" "" = .error .typeError := by decide +kernel

end StakePoolFogo.JsLegacy
