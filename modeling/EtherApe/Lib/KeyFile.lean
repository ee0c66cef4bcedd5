/-!
# Key files

A key file holds values of several kinds under the keys of its groups. What a program may rely on is
that a value is read back under the key and the kind it was stored with, also after the key file was
written out and parsed again. Nothing is said of a key that is read with another kind.
-/

/-- An implementation of key files. -/
structure KeyFiles (Kind : Type) (Value : Kind → Type) where
  KeyFile : Type
  Data : Type
  new : KeyFile
  set : KeyFile → String → String → (kind : Kind) → Value kind → KeyFile
  get : KeyFile → String → String → (kind : Kind) → Option (Value kind)
  toData : KeyFile → Data
  loadFromData : Data → Option KeyFile
  get_new : ∀ group key kind, get new group key kind = none
  get_set : ∀ file group key kind value,
    get (set file group key kind value) group key kind = some value
  get_set_of_ne : ∀ file {group key group' key'} kind value kind', (group, key) ≠ (group', key') →
    get (set file group key kind value) group' key' kind' = get file group' key' kind'
  get_of_load : ∀ {file file'}, loadFromData (toData file) = some file' →
    ∀ group key kind, get file' group key kind = get file group key kind
  loads : ∀ file, (loadFromData (toData file)).isSome

namespace KeyFiles

variable {Kind : Type} {Value : Kind → Type} (K : KeyFiles Kind Value)

/-- Storing nothing leaves the key file as it is. -/
def setSome (file : K.KeyFile) (group key : String) (kind : Kind) :
    Option (Value kind) → K.KeyFile
  | some value => K.set file group key kind value
  | none => file

theorem get_setSome (file : K.KeyFile) (group key : String) (kind : Kind)
    (value : Option (Value kind)) :
    K.get (K.setSome file group key kind value) group key kind =
      value.or (K.get file group key kind) := by
  cases value with
  | none => rfl
  | some value => exact K.get_set file group key kind value

theorem get_setSome_of_ne (file : K.KeyFile) {group key group' key' : String} (kind : Kind)
    (value : Option (Value kind)) (kind' : Kind) (hne : (group, key) ≠ (group', key')) :
    K.get (K.setSome file group key kind value) group' key' kind' =
      K.get file group' key' kind' := by
  cases value with
  | none => rfl
  | some value => exact K.get_set_of_ne file kind value kind' hne

theorem load_toData (file : K.KeyFile) : ∃ file', K.loadFromData (K.toData file) = some file' ∧
    ∀ group key kind, K.get file' group key kind = K.get file group key kind := by
  obtain ⟨file', hload⟩ := Option.isSome_iff_exists.mp (K.loads file)
  exact ⟨file', hload, K.get_of_load hload⟩

/-- Key files as tables. -/
def table [DecidableEq Kind] : KeyFiles Kind Value where
  KeyFile := String → String → (kind : Kind) → Option (Value kind)
  Data := String → String → (kind : Kind) → Option (Value kind)
  new := fun _ _ _ => none
  set := fun file group key kind value group' key' kind' =>
    if (group, key) = (group', key') then
      if hkind : kind = kind' then some (hkind ▸ value) else none
    else file group' key' kind'
  get := fun file => file
  toData := fun file => file
  loadFromData := some
  get_new := fun _ _ _ => rfl
  get_set := fun _ _ _ _ _ => (if_pos rfl).trans (dif_pos rfl)
  get_set_of_ne := fun _ _ _ _ _ _ _ _ hne => if_neg hne
  get_of_load := fun hload group key kind => by
    cases hload
    rfl
  loads := fun _ => rfl

end KeyFiles
