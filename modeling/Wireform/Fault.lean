/-! Why a field cannot be written, read or configured.

Each cause is a constructor; its class and its wording are given once, in
`Fault.kind` and `Fault.message`. Offsets into text count UTF-8 bytes.
-/

set_option autoImplicit false

namespace Wireform

/-- The coarse class of a fault, for callers that only route on it. -/
inductive FaultKind where
  | truncated
  | malformedEncoding
  | invalidArgument
  | unknownVariant
  | externalCapabilityFailure
  deriving DecidableEq, Repr

inductive TextFault where
  | missingSeparator
  | countNotInteger
  | negativeCount
  | lengthNotInteger
  | negativeLength
  | elementPastEnd
  | missingTerminator
  | trailingText
  | elementUnreadable
  | outsideLatin1
  /-- A fault that a caller describes in its own words. -/
  | described (reason : String)
  deriving DecidableEq, Repr

def TextFault.message : TextFault → String
  | .missingSeparator => "missing separator"
  | .countNotInteger => "element count is not an integer"
  | .negativeCount => "negative element count"
  | .lengthNotInteger => "element length is not an integer"
  | .negativeLength => "negative element length"
  | .elementPastEnd => "element runs past end of input"
  | .missingTerminator => "missing element terminator"
  | .trailingText => "unexpected text after last element"
  | .elementUnreadable => "element text does not parse"
  | .outsideLatin1 => "character outside latin-1"
  | .described reason => reason

inductive ConfigFault where
  /-- The configuration text itself could not be read. -/
  | source (text : String)
  | zeroFrameLimit
  | frameLimitTooLarge (limit : Nat)
  | zeroListLimit
  /-- The separator could be taken for part of a length. -/
  | ambiguousSeparator (separator : Char)
  deriving DecidableEq, Repr

def ConfigFault.message : ConfigFault → String
  | .source text => text
  | .zeroFrameLimit => "max_frame_len must be non-zero"
  | .frameLimitTooLarge limit =>
      "max_frame_len " ++ Nat.repr limit ++ " exceeds the 4-byte length prefix"
  | .zeroListLimit => "max_list_len must be non-zero"
  | .ambiguousSeparator separator =>
      "list_separator '" ++ separator.toString ++ "' collides with length digits"

inductive Fault where
  /-- Fewer bytes are left than a read needs. -/
  | truncated (needed remaining : Nat)
  /-- A length below zero where no absent form exists. -/
  | negativeLength (length : Int32)
  | invalidUtf8
  | malformedText (offset : Nat) (fault : TextFault)
  | frameTooLarge (declared max : Nat)
  | listTooLong (declared max : Nat)
  /-- A payload whose length does not fit the four bytes in front of it. -/
  | lengthOverflow (length : Nat)
  | invalidArgument (reason : String)
  | invalidConfig (fault : ConfigFault)
  /-- An ordinal that no variant has. -/
  | unknownVariant (ordinal : Int32)
  /-- A variant that has no ordinal. -/
  | unlistedVariant
  /-- An object capability refused; the text is its own. -/
  | capability (text : String)
  deriving DecidableEq, Repr

namespace Fault

/-- List text needs a separator after every number. -/
def emptySeparator : Fault := .invalidArgument "list separator cannot be empty"

def kind : Fault → FaultKind
  | truncated .. => .truncated
  | negativeLength _ | invalidUtf8 | malformedText .. | frameTooLarge .. | listTooLong ..
  | lengthOverflow _ => .malformedEncoding
  | invalidArgument _ | invalidConfig _ => .invalidArgument
  | unknownVariant _ | unlistedVariant => .unknownVariant
  | capability _ => .externalCapabilityFailure

def message : Fault → String
  | truncated needed remaining =>
      "truncated input: needed " ++ Nat.repr needed ++ " bytes, " ++ Nat.repr remaining ++ " remaining"
  | negativeLength length => "negative length prefix " ++ length.toInt.repr
  | invalidUtf8 => "invalid utf8 in string field"
  | malformedText offset fault =>
      "parse error at offset " ++ Nat.repr offset ++ ": " ++ fault.message
  | frameTooLarge declared max =>
      "frame too large: declared " ++ Nat.repr declared ++ " max " ++ Nat.repr max
  | listTooLong declared max =>
      "list too long: declared " ++ Nat.repr declared ++ " elements max " ++ Nat.repr max
  | lengthOverflow length =>
      "payload of " ++ Nat.repr length ++ " bytes exceeds the 4-byte length prefix"
  | invalidArgument reason => "invalid argument: " ++ reason
  | invalidConfig fault => "invalid codec configuration: " ++ fault.message
  | unknownVariant ordinal => "unknown enum ordinal " ++ ordinal.toInt.repr
  | unlistedVariant => "enum value is not listed in its variant table"
  | capability text => "object capability failed: " ++ text

/-- A chain of two succeeds just where both do. -/
theorem bind_eq_ok_iff {α β : Type} {first : Except Fault α} {next : α → Except Fault β} {b : β} :
    (first >>= next) = .ok b ↔ ∃ a, first = .ok a ∧ next a = .ok b := by
  cases first <;> simp [bind, Except.bind]

/-- A chain of two fails in its first part or in what follows it. -/
theorem bind_eq_error_iff {α β : Type} {first : Except Fault α} {next : α → Except Fault β}
    {fault : Fault} : (first >>= next) = .error fault ↔
      first = .error fault ∨ ∃ a, first = .ok a ∧ next a = .error fault := by
  cases first <;> simp [bind, Except.bind]

theorem map_eq_ok_iff {α β : Type} {first : Except Fault α} {f : α → β} {b : β} :
    first.map f = .ok b ↔ ∃ a, first = .ok a ∧ f a = b := by
  cases first <;> simp [Except.map]

theorem mapError_eq_ok_iff {α : Type} {cause : Type} {first : Except cause α}
    {describe : cause → Fault} {a : α} : first.mapError describe = .ok a ↔ first = .ok a := by
  cases first with
  | error cause =>
    show Except.error (describe cause) = Except.ok a ↔ Except.error cause = Except.ok a
    simp
  | ok value =>
    show Except.ok value = Except.ok a ↔ Except.ok value = Except.ok a
    simp

theorem pure_eq_ok_iff {α : Type} {a b : α} : (pure a : Except Fault α) = .ok b ↔ a = b := by
  simp [pure, Except.pure]

/-- Where there is no value there is one of these faults. -/
def Only {α : Type} (allowed : Fault → Prop) (result : Except Fault α) : Prop :=
  ∀ fault, result = .error fault → allowed fault

variable {α β : Type} {allowed wider : Fault → Prop}

theorem only_ok (value : α) : Only allowed (.ok value) := by
  intro fault failed
  cases failed

theorem only_error {fault : Fault} (here : allowed fault) :
    Only allowed (.error fault : Except Fault α) := by
  intro fault' failed
  cases failed
  exact here

theorem Only.mono {result : Except Fault α} (only : Only allowed result)
    (widen : ∀ fault, allowed fault → wider fault) : Only wider result :=
  fun fault failed => widen fault (only fault failed)

theorem Only.bind {first : Except Fault α} {next : α → Except Fault β} (here : Only allowed first)
    (later : ∀ value, first = .ok value → Only allowed (next value)) :
    Only allowed (first >>= next) := by
  cases first with
  | error fault => exact only_error (here fault rfl)
  | ok value => exact later value rfl

theorem only_mapM {f : α → Except Fault β} (each : ∀ value, Only allowed (f value))
    (list : List α) : Only allowed (list.mapM f) := by
  induction list with
  | nil => exact only_ok []
  | cons value rest ih =>
    rw [List.mapM_cons]
    exact (each value).bind fun _ _ => ih.bind fun _ _ => only_ok _

end Fault

end Wireform
