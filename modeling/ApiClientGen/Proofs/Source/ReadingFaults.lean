/-
Failures of reading.

Reading the bytes at a path gives a description, or fails with the path, the format and the cause.
The reader of a format says itself what is wrong with a text, but for six faults of YAML on which
it gives up without a word.  All of these can be told from the text: it holds a tag for a kind of
scalars that its node is not one of, a bare tag on a truth value with a line break behind it, a
number with very many parts, or an escape for a code beyond all bounds.  No JSON text is given up.
-/
import ApiClientGen.Proofs.Yaml.TokenFaults
import ApiClientGen.Proofs.Yaml.ValueFaults
import ApiClientGen.Source.Reading

namespace ApiClientGen.Source

open ApiClientGen.Document ApiClientGen.Files ApiClientGen.Yaml

/-- What a YAML text holds if its reader gives up on it with a fault. -/
def GivenUpFor (text : String) : Yaml.Fault → Prop
  | .truthValue =>
      Tagged (tokens text.toList) (commonTag "bool") ∨ Tagged (tokens text.toList) "!"
  | .timestamp | .timestampMapping => Tagged (tokens text.toList) (commonTag "timestamp")
  | .emptyNumber =>
      Tagged (tokens text.toList) (commonTag "int") ∨ Tagged (tokens text.toList) (commonTag "float")
  | .tooManyParts =>
      ∃ word style, Token.scalar word style ∈ tokens text.toList ∧ 174 ≤ word.toList.count ':'
  | .codeOverflow => HasWideEscape text.toList
  | _ => False

theorem sound_tokens (text : List Char) : Sound (tokens text) where
  plain := by
    intro word hmem
    rcases tokens_sound text _ hmem with hwhole | ⟨fault, heq, -⟩
    · exact hwhole
    · cases heq
  broken := by
    intro fault hmem
    rcases tokens_sound text _ hmem with hwhole | ⟨fault', heq, hfault⟩
    · exact hwhole.elim
    · obtain rfl := Token.broken.inj heq
      cases fault with
      | codeOverflow => exact hmem
      | truthValue | timestamp | timestampMapping | emptyNumber | tooManyParts => exact hfault.elim
      | malformed | codePoint | integer | fraction | calendar | tooDeep | raw => trivial

/-- A fault that can be traced to the tokens is reported, or the text holds what it stands for. -/
theorem reported_or_givenUpFor {text : String} {fault : Yaml.Fault}
    (h : TracedTo (tokens text.toList) fault) :
    (Cause.yaml fault).isExpected = true ∨ GivenUpFor text fault := by
  cases fault with
  | malformed | codePoint | integer | fraction | calendar | tooDeep | raw => exact Or.inl rfl
  | truthValue | timestamp | timestampMapping | emptyNumber | tooManyParts => exact Or.inr h
  | codeOverflow =>
      rcases tokens_sound text.toList _ h with hwhole | ⟨fault, heq, hfault⟩
      · exact hwhole.elim
      · obtain rfl := Token.broken.inj heq
        exact Or.inr hfault

/-- A cause of failure is reported, or it is one that a YAML text is given up for. -/
def IsAccountedFor (format : Format) (bytes : ByteArray) (cause : Cause) : Prop :=
  cause.isExpected = true
    ∨ format = .yaml ∧ ∃ text fault, String.fromUTF8? bytes = some text ∧ cause = .yaml fault
        ∧ GivenUpFor text fault

theorem describe_ends (format : Format) (bytes : ByteArray) :
    Ends (fun _ => True) (IsAccountedFor format bytes) (describe format bytes) := by
  unfold describe
  split
  · rename_i text htext
    have hread : Ends (fun _ => True) (IsAccountedFor format bytes) (format.read text) := by
      cases format with
      | json =>
          exact Ends.mapError (F := fun _ => True) (Ends.intro (fun _ _ => trivial)
            fun _ _ => trivial) fun _ _ => Or.inl rfl
      | yaml =>
          refine (read_traced (depthLimit + 1) text (sound_tokens _)).mapError fun fault hfault => ?_
          exact (reported_or_givenUpFor hfault).imp_right fun hgiven =>
            ⟨rfl, text, fault, htext, rfl, hgiven⟩
    refine hread.bind fun value _ => ?_
    refine Ends.bind (P := fun _ => True) (Ends.mapError (F := fun _ => True)
      (Ends.intro (fun _ _ => trivial) fun _ _ => trivial) fun _ _ => Or.inl rfl) fun value _ => ?_
    split
    · exact Ends.bind (P := fun _ => True) (Ends.mapError (F := fun _ => True)
        (Ends.intro (fun _ _ => trivial) fun _ _ => trivial) fun _ _ => Or.inl rfl)
        fun _ _ => trivial
    · exact Or.inl rfl
  · exact Or.inl rfl

/--
**Failures of reading carry the path and the format**, and their cause is one that is reported, or
the text is YAML and holds what its reader gives up on.
-/
theorem unreadable_of_describe (format : Format) (path : Path) (bytes : ByteArray) :
    Ends (fun _ => True)
      (fun failure => ∃ cause, failure = Failure.unreadable path format cause
        ∧ IsAccountedFor format bytes cause)
      ((describe format bytes).mapError (Failure.unreadable path format)) :=
  (describe_ends format bytes).mapError fun cause hcause => ⟨cause, rfl, hcause⟩

/-- The reader gives up on a word that is tagged as a truth value. -/
theorem givesUp_taggedWord :
    Ends (fun _ => False)
      (fun failure => failure = .unreadable ⟨"", ["api.yaml"]⟩ .yaml (.yaml .truthValue)
        ∧ failure.isExpected = false)
      (read ⟨"", ["api.yaml"]⟩ "openapi: !!bool x".toUTF8) := by
  decide +kernel

end ApiClientGen.Source
