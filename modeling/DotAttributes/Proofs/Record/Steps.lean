import DotAttributes.Record.Reading

/-!
# Steps of the reader of record labels

The reader of records does one of ten things with a token: it passes blanks at the beginning of a
field or behind a group, reads a text, alone or behind a port, opens, names or closes a port, ends a
field with a bar, or opens or closes a group. `StepsTo` says what each of them needs and what it
does, and the reader does nothing else (`step_eq_ok_iff`). So what all of them keep is kept by the
reader.
-/

namespace DotAttributes.Record

/-- Whether nothing but blanks has been read of the field. -/
def Place.isFresh : Place → Bool
  | start | blank => true
  | port .. | afterPort _ | afterText .. | afterGroup .. => false

/-- What the reader makes of a token. -/
inductive StepsTo (token : Token) : State → State → Prop
  /-- blanks at the beginning of a field -/
  | blank {stack : List OpenGroup} {fields : List Field} (blank : token.isBlank = true) :
      StepsTo token ⟨stack, fields, .start⟩ ⟨stack, fields, .blank⟩
  /-- a text; blanks are one if there are blanks in front of them -/
  | text {stack : List OpenGroup} {fields : List Field} {place : Place}
      (kind : token.kind.isText = true) (fresh : place.isFresh = true)
      (not_blank : place = .start → token.isBlank = false) :
      StepsTo token ⟨stack, fields, place⟩
        ⟨stack, fields, .afterText none (Text.trimAt token.span.start token.text)⟩
  /-- a text behind a port -/
  | textAfterPort {stack : List OpenGroup} {fields : List Field} (mark : PortMark)
      (kind : token.kind.isText = true) :
      StepsTo token ⟨stack, fields, .afterPort mark⟩
        ⟨stack, fields, .afterText (some mark) (Text.trimAt token.span.start token.text)⟩
  /-- blanks behind a group -/
  | blankAfterGroup {stack : List OpenGroup} {fields : List Field} (group : Field)
      (blank : token.isBlank = true) :
      StepsTo token ⟨stack, fields, .afterGroup group false⟩
        ⟨stack, fields, .afterGroup group true⟩
  /-- the bracket that opens a port -/
  | openPort {stack : List OpenGroup} {fields : List Field} {place : Place}
      (kind : token.kind = .mark .leftAngle) (fresh : place.isFresh = true) :
      StepsTo token ⟨stack, fields, place⟩ ⟨stack, fields, .port token.span none⟩
  /-- the name of a port -/
  | name {stack : List OpenGroup} {fields : List Field} (bracket : Span)
      (kind : token.kind.isText = true) :
      StepsTo token ⟨stack, fields, .port bracket none⟩ ⟨stack, fields, .port bracket (some token)⟩
  /-- the bracket that closes a port -/
  | closePort {stack : List OpenGroup} {fields : List Field} (bracket : Span) (name : Option Token)
      (kind : token.kind = .mark .rightAngle) :
      StepsTo token ⟨stack, fields, .port bracket name⟩
        ⟨stack, fields, .afterPort (portOf bracket name token.span)⟩
  /-- the bar behind a field -/
  | bar {stack : List OpenGroup} {fields : List Field} {place : Place} {field : Field}
      (kind : token.kind = .mark .bar) (field_eq : place.field? token.span.start = some field) :
      StepsTo token ⟨stack, fields, place⟩ ⟨stack, fields ++ [field], .start⟩
  /-- the brace that opens a group -/
  | openGroup {stack : List OpenGroup} {fields : List Field} {place : Place}
      (kind : token.kind = .mark .leftBrace) (fresh : place.isFresh = true) :
      StepsTo token ⟨stack, fields, place⟩ ⟨⟨fields, token.span.start⟩ :: stack, [], .start⟩
  /-- the brace that closes a group, behind its last field -/
  | closeGroup {stack : List OpenGroup} {fields : List Field} {place : Place} {field : Field}
      (group : OpenGroup) (kind : token.kind = .mark .rightBrace)
      (field_eq : place.field? token.span.start = some field) :
      StepsTo token ⟨group :: stack, fields, place⟩
        ⟨stack, group.before,
          .afterGroup (.group (fields ++ [field]) ⟨group.start, token.span.stop⟩) false⟩

variable {token : Token} {state state' : State}

theorem isText_of_isBlank (h : token.isBlank = true) : token.kind.isText = true :=
  (Bool.and_eq_true_iff.1 h).1

theorem step_of_isText (h : token.kind.isText = true) :
    step state token = stepText state token := by
  unfold step
  split
  · next heq =>
    rw [heq] at h
    cases h
  · rfl
  · rfl

theorem step_of_mark {mark : Mark} (h : token.kind = .mark mark) :
    step state token = stepMark state token mark := by
  rw [step, h]

/-- What the reader does with a token of text. -/
theorem stepsTo_of_stepText (hkind : token.kind.isText = true)
    (h : stepText state token = .ok state') : StepsTo token state state' := by
  obtain ⟨stack, fields, place⟩ := state
  cases place with
  | start =>
    cases h
    by_cases hblank : token.isBlank = true
    · rw [if_pos hblank]
      exact .blank hblank
    · rw [if_neg hblank]
      exact .text hkind rfl fun _ => Bool.eq_false_iff.2 hblank
  | blank =>
    cases h
    exact .text hkind rfl nofun
  | port bracket name =>
    cases name with
    | none =>
      cases h
      exact .name bracket hkind
    | some name => cases h
  | afterPort mark =>
    cases h
    exact .textAfterPort mark hkind
  | afterText mark text => cases h
  | afterGroup group blank =>
    simp only [stepText] at h
    split at h
    · next hblank =>
      obtain ⟨htoken, hnone⟩ := Bool.and_eq_true_iff.1 hblank
      cases blank with
      | false =>
        cases h
        exact .blankAfterGroup group htoken
      | true => cases hnone
    · cases h

/-- What the reader does with a mark. -/
theorem stepsTo_of_stepMark {mark : Mark} (hkind : token.kind = .mark mark)
    (h : stepMark state token mark = .ok state') : StepsTo token state state' := by
  obtain ⟨stack, fields, place⟩ := state
  unfold stepMark at h
  split at h
  · split at h
    · next bracket name heq =>
      cases heq
      cases h
      exact .closePort bracket name hkind
    · cases h
  · cases h
  · next field heq =>
    cases h
    exact .bar hkind heq
  · next field heq =>
    cases stack with
    | nil => cases h
    | cons group stack =>
      cases h
      exact .closeGroup group hkind heq
  · cases h
  · split at h
    · next heq =>
      cases heq
      cases h
      exact .openGroup hkind rfl
    · next heq =>
      cases heq
      cases h
      exact .openGroup hkind rfl
    · cases h
  · split at h
    · next heq =>
      cases heq
      cases h
      exact .openPort hkind rfl
    · next heq =>
      cases heq
      cases h
      exact .openPort hkind rfl
    · cases h

/-- A token is read if one of the steps is possible, and then it is read as that step says. -/
theorem step_eq_ok_iff : step state token = .ok state' ↔ StepsTo token state state' := by
  constructor
  · intro h
    unfold step at h
    split at h
    · next hkind => exact stepsTo_of_stepMark hkind h
    · next hkind => exact stepsTo_of_stepText (by rw [hkind]; rfl) h
    · next hkind => exact stepsTo_of_stepText (by rw [hkind]; rfl) h
  · intro h
    cases h with
    | blank hblank =>
      rw [step_of_isText (isText_of_isBlank hblank), stepText]
      simp [hblank]
    | @text _ _ place hkind hfresh hblank =>
      rw [step_of_isText hkind, stepText]
      cases place with
      | start => simp [hblank rfl]
      | blank => rfl
      | port | afterPort | afterText | afterGroup => cases hfresh
    | textAfterPort mark hkind => rw [step_of_isText hkind, stepText]
    | blankAfterGroup group hblank =>
      rw [step_of_isText (isText_of_isBlank hblank), stepText]
      simp [hblank]
    | @openPort _ _ place hkind hfresh =>
      rw [step_of_mark hkind]
      cases place with
      | start | blank => rfl
      | port | afterPort | afterText | afterGroup => cases hfresh
    | name bracket hkind => rw [step_of_isText hkind, stepText]
    | closePort bracket name hkind =>
      rw [step_of_mark hkind]
      rfl
    | bar hkind hfield => simp only [step_of_mark hkind, stepMark, hfield]
    | @openGroup _ _ place hkind hfresh =>
      rw [step_of_mark hkind]
      cases place with
      | start | blank => rfl
      | port | afterPort | afterText | afterGroup => cases hfresh
    | closeGroup group hkind hfield =>
      simp only [step_of_mark hkind, stepMark, hfield, closeGroup]

/-- A label that is read is a run that leaves no group open, and its last field. -/
theorem exists_run_of_read {cs : List Char} {label : List Field} (h : read cs = .ok label) :
    ∃ fields place field, run .start (tokens cs) = .ok ⟨[], fields, place⟩ ∧
      place.field? (Text.size cs) = some field ∧ label = fields ++ [field] := by
  unfold read at h
  split at h
  · next state hrun =>
    unfold State.finish at h
    split at h
    · cases h
    · next field hfield =>
      split at h
      · next hstack =>
        obtain ⟨stack, fields, place⟩ := state
        obtain rfl : stack = [] := List.isEmpty_iff.1 hstack
        cases h
        exact ⟨fields, place, field, hrun, hfield, rfl⟩
      · cases h
  · cases h

end DotAttributes.Record
