/-
JSON text in both formats.

A description that is written as JSON text is the same description in both formats, if its value
is portable: every fraction is written with a point, every character is one code unit, and no key
is very long.  Without a point, a number in scientific notation is a text in YAML.
-/
import ApiClientGen.Proofs.Document.Answers
import ApiClientGen.Proofs.Yaml.WrittenValues
import ApiClientGen.Source.Reading

namespace ApiClientGen.Source

open ApiClientGen.Document ApiClientGen.Json ApiClientGen.Yaml

/-! ### Levels -/

/-- A part that is not too deep has one level more than the parts in it. -/
theorem levels_succ {depth : Nat} (hdepth : ¬ depthLimit < depth) :
    depthLimit + 1 - depth = depthLimit + 1 - (depth + 1) + 1 := by
  omega

mutual

/-- A value whose parts do not lie too deep has few enough levels. -/
theorem isWithin_of_plain : (v : Value) → ∀ {depth : Nat} {w : Value},
    (readBack v).raw.plain depth = .ok w → IsWithin (depthLimit + 1 - depth) v
  | .scalar s, depth, w, h => by
      rw [readBack, Value.raw, RawValue.plain] at h
      split at h
      · cases h
      · rename_i hdepth
        rw [levels_succ hdepth]
        exact .scalar
  | .list vs, depth, w, h => by
      rw [readBack, Value.raw, RawValue.plain] at h
      split at h
      · cases h
      · rename_i hdepth
        obtain ⟨ws, hvs, -⟩ := except_bind_ok.mp h
        rw [levels_succ hdepth]
        exact .list (isWithin_of_plainItems vs hvs)
  | .mapping fs, depth, w, h => by
      rw [readBack, Value.raw, RawValue.plain] at h
      split at h
      · cases h
      · rename_i hdepth
        obtain ⟨ws, hfs, -⟩ := except_bind_ok.mp h
        rw [levels_succ hdepth]
        exact .mapping (isWithin_of_plainEntries fs hfs)

theorem isWithin_of_plainItems : (vs : List Value) → ∀ {depth : Nat} {ws : List Value},
    plainItems depth (rawItems (readBackItems vs)) = .ok ws →
    ∀ v ∈ vs, IsWithin (depthLimit + 1 - depth) v
  | [], _, _, _ => nofun
  | v :: vs, depth, ws, h => by
      obtain ⟨w, hv, h⟩ := except_bind_ok.mp h
      obtain ⟨ws', hvs, h⟩ := except_bind_ok.mp h
      exact List.forall_mem_cons.mpr ⟨isWithin_of_plain v hv, isWithin_of_plainItems vs hvs⟩

theorem isWithin_of_plainEntries : (fs : List (String × Value)) → ∀ {depth : Nat}
    {ws : List (String × Value)}, plainEntries depth (rawEntries (readBackFields fs)) = .ok ws →
    ∀ e ∈ fs, IsWithin (depthLimit + 1 - depth) e.2
  | [], _, _, _ => nofun
  | (k, v) :: fs, depth, ws, h => by
      obtain ⟨text, -, h⟩ := except_bind_ok.mp h
      obtain ⟨w, hv, h⟩ := except_bind_ok.mp h
      obtain ⟨ws', hfs, h⟩ := except_bind_ok.mp h
      exact List.forall_mem_cons.mpr ⟨isWithin_of_plain v hv, isWithin_of_plainEntries fs hfs⟩

end

/-! ### Reading a description -/

/-- What is read from a text tells what its description is. -/
theorem describe_congr {format format' : Format} {bytes : ByteArray} {text : String}
    (htext : String.fromUTF8? bytes = some text) (hread : format.read text = format'.read text) :
    describe format bytes = describe format' bytes := by
  unfold describe
  rw [htext]
  dsimp only
  rw [hread]

/-- A description is a mapping that was read from the text, whose parts do not lie too deep. -/
theorem read_of_describe {format : Format} {bytes : ByteArray} {text : String} {d : Description}
    (htext : String.fromUTF8? bytes = some text) (h : describe format bytes = .ok d) :
    ∃ raw, format.read text = .ok raw ∧ raw.plain 0 = .ok (.mapping d.content) := by
  unfold describe at h
  rw [htext] at h
  obtain ⟨raw, hread, h⟩ := except_bind_ok.mp h
  obtain ⟨value, hplain, h⟩ := except_bind_ok.mp h
  split at h
  · obtain ⟨version, -, h⟩ := except_bind_ok.mp h
    cases h
    exact ⟨raw, hread, except_mapError_ok.mp hplain⟩
  · cases h

theorem json_of_read {text : String} {raw : RawValue} (h : Format.read text .json = .ok raw) :
    ∃ w, Json.read text = .ok w ∧ w.raw = raw := by
  have hmap := except_mapError_ok.mp h
  cases hread : Json.read text with
  | error fault =>
      rw [hread] at hmap
      cases hmap
  | ok w =>
      rw [hread] at hmap
      cases hmap
      exact ⟨w, rfl, rfl⟩

/-- The value of JSON text in YAML, if all integers have few digits and no part lies too deep. -/
theorem read_yaml_written {v : Value} (hv : IsPortable v) (hfew : AllScalars HasFewDigits v)
    (hcollection : ∀ s, v ≠ .scalar s) (hlevels : IsWithin (depthLimit + 1) v) :
    Format.read (String.ofList (written v)) .yaml = .ok (readBack v).raw := by
  have hread : Yaml.read (depthLimit + 1) (String.ofList (written v)) = .ok (readBack v).raw := by
    unfold Yaml.read
    rw [String.toList_ofList, tokens_written hv hcollection, ofTokens_value hlevels (by decide)]
    dsimp only [bind, Except.bind]
    rw [Tree.check_treeOf ⟨hv, hfew⟩]
    exact Tree.unroll_node hlevels ⟨hv, hfew⟩
  exact congrArg (Except.mapError Cause.yaml) hread

/-- The bytes of JSON text for a value. -/
def jsonBytes (v : Value) : ByteArray := (String.ofList (written v)).toUTF8

theorem fromUTF8?_jsonBytes (v : Value) :
    String.fromUTF8? (jsonBytes v) = some (String.ofList (written v)) := by
  unfold String.fromUTF8?
  exact dif_pos (String.ofList (written v)).isValidUTF8

/--
**A description written as JSON text is the same in both formats**: where reading it as JSON gives
a description, reading it as YAML gives the same one.
-/
theorem describe_yaml_of_json {v : Value} (hv : IsPortable v) {d : Description}
    (h : describe .json (jsonBytes v) = .ok d) : describe .yaml (jsonBytes v) = .ok d := by
  have htext := fromUTF8?_jsonBytes v
  obtain ⟨raw, hread, hplain⟩ := read_of_describe htext h
  obtain ⟨w, hjson, rfl⟩ := json_of_read hread
  obtain ⟨rfl, hfew⟩ := read_written hv hjson
  have hcollection : ∀ s, v ≠ .scalar s := by
    rintro s rfl
    cases hplain
  have hyaml := read_yaml_written hv hfew hcollection (isWithin_of_plain v hplain)
  rw [← h]
  exact describe_congr htext (hyaml.trans hread.symm)

/-- A description with one more field. -/
def withField (key : String) (v : Value) : Value := .mapping [("openapi", .string "3.0.3"), (key, v)]

/-- Texts that look like something else, and values of other kinds. -/
def mixedValue : Value :=
  withField "x: \"é\"" (.list [.null, .bool true, .int (-12), .scalar (.float (.ofDecimal true 25 (-8))),
    .string "yes", .string "a, \\ # b:\n  2024-01-01", .mapping []])

theorem describe_yaml_of_json_mixedValue :
    IsPortable mixedValue ∧ ∃ d, describe .json (jsonBytes mixedValue) = .ok d
      ∧ .mapping d.content = mixedValue ∧ describe .yaml (jsonBytes mixedValue) = .ok d := by
  have hportable : IsPortable mixedValue := by decide +kernel
  obtain ⟨d, hjson, hcontent⟩ := Ends.exists_ok (P := fun d => .mapping d.content = mixedValue)
    (x := describe .json (jsonBytes mixedValue)) (by decide +kernel)
  exact ⟨hportable, d, hjson, hcontent, describe_yaml_of_json hportable hjson⟩

/-- A description in a format has a value as its content. -/
def Describes (format : Format) (bytes : ByteArray) (v : Value) : Prop :=
  Ends (fun d => .mapping d.content = v) (fun _ => False) (describe format bytes)

instance (format : Format) (bytes : ByteArray) (v : Value) : Decidable (Describes format bytes v) :=
  inferInstanceAs (Decidable (Ends _ _ _))

/--
In YAML a number in scientific notation without a point is a text, and the two halves of a character
that takes two code units are two characters.
-/
theorem describe_differs :
    (Describes .json (jsonBytes (withField "x" (.scalar (.float (.ofDecimal false 1 16)))))
        (withField "x" (.scalar (.float (.ofDecimal false 1 16))))
      ∧ Describes .yaml (jsonBytes (withField "x" (.scalar (.float (.ofDecimal false 1 16)))))
        (withField "x" (.string "1e+16")))
    ∧ Describes .json (jsonBytes (withField "x" (.string "😀"))) (withField "x" (.string "😀"))
      ∧ ¬ Describes .yaml (jsonBytes (withField "x" (.string "😀"))) (withField "x" (.string "😀")) := by
  decide +kernel

end ApiClientGen.Source
