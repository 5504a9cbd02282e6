import Doda.Application.AiSupport
import Doda.Lib.Regex

/-!
# The scan for credentials

A message that looks like it contains a live credential is refused before anything
else is done with it.

## Main definitions

* `Shape` — a credential: a prefix, and a run of characters as long as asked for.
* `patterns` — `_PATTERNS`.
* `detectLikelySecret` — `detect_likely_secret`.
-/

namespace Doda

open Regex

/-- A digit or a letter of ASCII. -/
def isAsciiAlnum (c : Char) : Bool :=
  c.isDigit || c.isUpper || c.isLower

/-- A shape of credentials: what it begins with, and the class and the number of the
characters after that.  Some end at a word boundary, as they begin at one. -/
structure Shape where
  label : String
  front : Regex
  cls : Char → Bool
  least : ℕ
  exactly : Bool := false

/-- `[A-Za-z0-9_-]`. -/
def isKeyChar (c : Char) : Bool := isAsciiAlnum c || c = '_' || c = '-'

def anthropicApiKey : Shape where
  label := "anthropic_api_key"
  front := text "sk-ant-"
  cls := isKeyChar
  least := 20

def openaiApiKey : Shape where
  label := "openai_api_key"
  front := text "sk-"
  cls := isKeyChar
  least := 20

def awsAccessKeyId : Shape where
  label := "aws_access_key_id"
  front := text "AKIA"
  cls c := c.isDigit || c.isUpper
  least := 16
  exactly := true

def googleApiKey : Shape where
  label := "google_api_key"
  front := text "AIza"
  cls := isKeyChar
  least := 35

def githubToken : Shape where
  label := "github_token"
  front := .seq (text "gh") (.seq (.char (· ∈ ['p', 'o', 'u', 's', 'r'])) (text "_"))
  cls := isAsciiAlnum
  least := 36

def slackToken : Shape where
  label := "slack_token"
  front := .seq (text "xox") (.seq (.char (· ∈ ['b', 'a', 'p', 'r', 's'])) (text "-"))
  cls c := isAsciiAlnum c || c = '-'
  least := 10

def jwt : Shape where
  label := "jwt"
  front := .seq (text "eyJ") (.seq (.rep isKeyChar 10 false) (.seq (text ".")
    (.seq (.rep isKeyChar 10 false) (text "."))))
  cls := isKeyChar
  least := 10

def bearerToken : Shape where
  label := "bearer_token"
  front := .seq (.char (· ∈ ['B', 'b'])) (.seq (text "earer") (.rep isSpace 1 false))
  cls c := isAsciiAlnum c || c = '.' || c = '_' || c = '-'
  least := 20

/-- The shape between two word boundaries. -/
def Shape.pattern (s : Shape) : Regex :=
  .seq .boundary (.seq s.front (.seq (.rep s.cls s.least s.exactly) .boundary))

/-- `-----BEGIN (?:RSA |EC |OPENSSH |DSA )?PRIVATE KEY-----`. -/
def privateKeyBlock : Regex :=
  .seq (text "-----BEGIN ") (.seq
    (.alt (text "RSA ") (.alt (text "EC ") (.alt (text "OPENSSH ") (.alt (text "DSA ") .empty))))
    (text "PRIVATE KEY-----"))

/-- `_PATTERNS`. -/
def patterns : List (String × Regex) :=
  [anthropicApiKey, openaiApiKey, awsAccessKeyId, googleApiKey, githubToken, slackToken].map
      (fun s => (s.label, s.pattern)) ++
    ("private_key_block", privateKeyBlock) ::
      [jwt, bearerToken].map fun s => (s.label, s.pattern)

variable [Deployment]

/-- `\w`. -/
def isWord (c : Char) : Bool :=
  if c.toNat < 128 then isAsciiAlnum c || c = '_' else !isSpace c && Deployment.isAlnum c

/-- `detect_likely_secret`. -/
def detectLikelySecret (content : String) : Option String :=
  (patterns.find? fun x => x.2.search isWord content.toList).map (·.1)

end Doda
