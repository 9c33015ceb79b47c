/-
The session keys and their runtime API.

`runtime/src/lib.rs` applies `impl_opaque_keys!` twice. `SessionKeys` is what the
session pallet stores and what `session.set_keys` takes; `opaque::SessionKeys` is
what `sp_session::SessionKeys for Runtime` generates and decodes. A key is 32
bytes without a type, so a struct is read as any other that is no longer: what the
two disagree on is found out by nobody (`decode_into_raw_public_keys_iff`).
-/
import Eco2.Scale

set_option autoImplicit false

namespace Eco2

open Scale

/-! ## `impl_opaque_keys!` -/

/-- `sp_core::crypto::KeyTypeId`, for the keys the runtime declares. -/
inductive KeyTypeId
  | aura
  | grandpa
  | im_online
  | authority_discovery
  deriving DecidableEq

/-- A raw public key. -/
abbrev Key := ByteArr 32

/-- A value of the struct that the macro declares for the fields. -/
abbrev KeyStruct (fields : List KeyTypeId) := List.Vector Key fields.length

namespace KeyStruct

/-! What the macro derives, for the fields in the order they are declared. -/

variable (fields : List KeyTypeId)

/-- `Encode`: the keys in field order. -/
def encode {fields : List KeyTypeId} (k : KeyStruct fields) : List UInt8 := encode_arrays k

/-- `Decode`: the fields are read in order; trailing bytes are ignored. -/
def decode (input : List UInt8) : Option (KeyStruct fields) :=
  (read_arrays 32 fields.length input).map Prod.fst

/-- `into_raw_public_keys`: the keys, each with the key type of its field. -/
def into_raw_public_keys {fields : List KeyTypeId} (k : KeyStruct fields) :
    List (List UInt8 × KeyTypeId) :=
  (k.toList.map List.Vector.toList).zip fields

/-- `decode_into_raw_public_keys(encoded)`. -/
def decode_into_raw_public_keys (encoded : List UInt8) :
    Option (List (List UInt8 × KeyTypeId)) :=
  (decode fields encoded).map into_raw_public_keys

/-- `generate(seed)`: the keystore makes a key of each field's type, and they are encoded. -/
def generate (generate_pair : KeyTypeId → Option (List UInt8) → Key)
    (seed : Option (List UInt8)) : List UInt8 :=
  encode (⟨fields.map fun id => generate_pair id seed, List.length_map _⟩ : KeyStruct fields)

end KeyStruct

/-! ## The two structs and the runtime API -/

/-- `SessionKeys`, the `Keys` of `pallet_session`. -/
def SessionKeys : List KeyTypeId := [.grandpa, .aura, .im_online, .authority_discovery]

/-- `opaque::SessionKeys`. -/
def OpaqueSessionKeys : List KeyTypeId := [.aura, .grandpa]

/-- `SessionKeys::generate_session_keys`. -/
def generate_session_keys (generate_pair : KeyTypeId → Option (List UInt8) → Key)
    (seed : Option (List UInt8)) : List UInt8 :=
  KeyStruct.generate OpaqueSessionKeys generate_pair seed

/-- `SessionKeys::decode_session_keys`. -/
def decode_session_keys (encoded : List UInt8) : Option (List (List UInt8 × KeyTypeId)) :=
  KeyStruct.decode_into_raw_public_keys OpaqueSessionKeys encoded

/-! ## Two key structs -/

namespace KeyStruct

variable {fields fields' : List KeyTypeId}

/-- A struct reads back what it has written, whatever follows. -/
theorem decode_encode_append (k : KeyStruct fields) (rest : List UInt8) :
    decode fields (encode k ++ rest) = some k := by
  rw [decode, encode, read_arrays_append]
  rfl

theorem decode_encode (k : KeyStruct fields) : decode fields (encode k) = some k := by
  rw [← decode_encode_append k [], List.append_nil]

/-- Each key comes with the type of the field it is read into. -/
theorem map_snd_into_raw_public_keys (k : KeyStruct fields) :
    k.into_raw_public_keys.map Prod.snd = fields := by
  refine List.map_snd_zip ?_
  rw [List.length_map, List.Vector.toList_length]

theorem length_encode (k : KeyStruct fields) : k.encode.length = fields.length * 32 :=
  length_encode_arrays k

/-- The encoding of one struct is refused by another if that has more fields. -/
theorem decode_encode_eq_none_iff (k : KeyStruct fields) :
    decode fields' k.encode = none ↔ fields.length < fields'.length := by
  rw [decode, Option.map_eq_none_iff, read_arrays_eq_none_iff, length_encode]
  exact Nat.mul_lt_mul_right (by decide)

/-- **Two key structs agree if they declare the same fields in the same order**, and on
no value otherwise. -/
theorem decode_into_raw_public_keys_iff (k : KeyStruct fields) :
    decode_into_raw_public_keys fields' k.encode = some k.into_raw_public_keys
      ↔ fields' = fields := by
  constructor
  · intro h
    obtain ⟨k', -, hraw⟩ := Option.map_eq_some_iff.mp h
    rw [← map_snd_into_raw_public_keys k', hraw, map_snd_into_raw_public_keys]
  · rintro rfl
    rw [decode_into_raw_public_keys, decode_encode]
    rfl

end KeyStruct

/-! ## The runtime API against the session pallet -/

/-- A value of the runtime's struct. -/
def SessionKeys.of (grandpa aura im_online authority_discovery : Key) : KeyStruct SessionKeys :=
  ⟨[grandpa, aura, im_online, authority_discovery], rfl⟩

/-- A value of the opaque struct. -/
def OpaqueSessionKeys.of (aura grandpa : Key) : KeyStruct OpaqueSessionKeys :=
  ⟨[aura, grandpa], rfl⟩

/-- The API answers with two keys, each under the type of the other. -/
theorem decode_session_keys_of (grandpa aura im_online authority_discovery : Key) :
    decode_session_keys (SessionKeys.of grandpa aura im_online authority_discovery).encode
      = some [(grandpa.toList, .aura), (aura.toList, .grandpa)] := by
  -- the runtime's encoding is one of the opaque struct, with two keys behind it
  have hsplit : (SessionKeys.of grandpa aura im_online authority_discovery).encode
      = (OpaqueSessionKeys.of grandpa aura).encode
        ++ (im_online.toList ++ authority_discovery.toList) := by
    change [grandpa, aura, im_online, authority_discovery].flatMap List.Vector.toList
      = [grandpa, aura].flatMap List.Vector.toList ++ _
    simp only [List.flatMap_cons, List.flatMap_nil, List.append_nil, List.append_assoc]
  rw [decode_session_keys, KeyStruct.decode_into_raw_public_keys, hsplit,
    KeyStruct.decode_encode_append]
  rfl

/-- **The API and the pallet never agree.** No encoded value of the runtime's struct is
answered with its own keys and their types, and nothing the API generates is a value of
it. -/
theorem session_keys_never (k : KeyStruct SessionKeys)
    (generate_pair : KeyTypeId → Option (List UInt8) → Key) (seed : Option (List UInt8)) :
    decode_session_keys k.encode ≠ some k.into_raw_public_keys
      ∧ KeyStruct.decode SessionKeys (generate_session_keys generate_pair seed) = none := by
  constructor
  · intro h
    exact absurd ((KeyStruct.decode_into_raw_public_keys_iff k).mp h) (by decide)
  · exact (KeyStruct.decode_encode_eq_none_iff _).mpr (by decide)

/-- Four keys of which each is one byte repeated: the API takes the `grandpa` key for an
`aura` key, and what it generates from the same keys is too short for the pallet. -/
theorem session_keys_disagree :
    decode_session_keys (SessionKeys.of (.replicate 32 1) (.replicate 32 2) (.replicate 32 3)
        (.replicate 32 4)).encode
      = some [(List.replicate 32 1, .aura), (List.replicate 32 2, .grandpa)]
      ∧ (SessionKeys.of (.replicate 32 1) (.replicate 32 2) (.replicate 32 3)
          (.replicate 32 4)).into_raw_public_keys
        = [(List.replicate 32 1, .grandpa), (List.replicate 32 2, .aura),
          (List.replicate 32 3, .im_online), (List.replicate 32 4, .authority_discovery)]
      ∧ KeyStruct.decode SessionKeys
          (generate_session_keys (fun _ _ => .replicate 32 1) none) = none :=
  ⟨decode_session_keys_of _ _ _ _, rfl,
    (KeyStruct.decode_encode_eq_none_iff _).mpr (by decide)⟩

end Eco2
