import FlowAnalysis.Check.Bubbles

/-!
# Secrets in the source

Texts that look like the tokens of well-known providers.  What stands as the credentials of a
bubble is looked after elsewhere.

## Main definitions

* `SecretShape` — the shape of a token.
* `secretShapes` — the known shapes.
* `Flow.checkSecrets` — the rule.
-/

namespace FlowAnalysis

open Syntax

/-- A class of characters. -/
abbrev CharClass := Char → Bool

/-- Whether a text begins with one character of each of some classes. -/
def beginsWith : List CharClass → List Char → Bool
  | [], _ => true
  | _ :: _, [] => false
  | p :: ps, c :: cs => p c && beginsWith ps cs

/-- The shape of a token: characters of given classes, and then as many as given of one class. -/
structure SecretShape where
  provider : String
  opening : List CharClass
  tail : CharClass
  tailLength : Nat

namespace SecretShape

/-- The classes of the characters of the shortest token of a shape. -/
def classes (s : SecretShape) : List CharClass := s.opening ++ List.replicate s.tailLength s.tail

/-- Whether a token of a shape stands somewhere in a text. -/
def occursIn (s : SecretShape) : List Char → Bool
  | [] => beginsWith s.classes []
  | c :: cs => beginsWith s.classes (c :: cs) || occursIn s cs

end SecretShape

/-- One character each. -/
def exactly (text : String) : List CharClass := text.toList.map fun c => (· = c)

/-- One character out of several. -/
def oneOf (text : String) : CharClass := fun c => text.toList.contains c

/-- Letters and digits of ASCII, and further characters. -/
def alphanumericOr (more : String) : CharClass := fun c => c.isAlphanum || oneOf more c

/-- The known shapes of tokens. -/
def secretShapes : List SecretShape :=
  [⟨"Slack token", exactly "xox" ++ [oneOf "abposr"] ++ exactly "-", alphanumericOr "-", 10⟩,
   ⟨"OpenAI API key", exactly "sk-", alphanumericOr "_-", 20⟩,
   ⟨"GitHub token", exactly "gh" ++ [oneOf "pousr"] ++ exactly "_", Char.isAlphanum, 36⟩,
   ⟨"AWS access key", exactly "AKIA", fun c => c.isDigit || c.isUpper, 16⟩,
   ⟨"Google API key", exactly "AIza", alphanumericOr "_-", 35⟩]

/-- The provider of the first known shape that stands somewhere in a text. -/
def secretProvider? (text : List Char) : Option String :=
  (secretShapes.find? (·.occursIn text)).map (·.provider)

namespace Flow

/-- The ranges in which the credentials of bubbles stand. -/
def credentialSpans (f : Flow) : List Span :=
  f.constructions.filterMap fun c => (f.credentialsOf? c).map (·.2.span)

/-- Whether a node begins in one of some ranges. -/
def beginsIn (spans : List Span) (t : Tree) : Bool :=
  spans.any fun s => s.start ≤ t.start && t.start < s.stop

/-- Whether a node is a string or a template. -/
def isText (t : Tree) : Bool := t.isAny [.string, .templateString]

/-- The texts of a flow, credentials left out. -/
def openTexts (f : Flow) : List Tree :=
  let spans := f.credentialSpans
  (f.source.root.walk fun t =>
    if beginsIn spans t then .skip else if isText t then .keep else .enter).filter isText

/-- Checks that no text looks like a token. -/
def checkSecrets (f : Flow) : List Diagnostic :=
  f.openTexts.filterMap fun t =>
    (secretProvider? (f.source.chars t)).map fun provider =>
      f.diagnosticAt t (.hardcodedSecret provider)

end Flow

end FlowAnalysis
