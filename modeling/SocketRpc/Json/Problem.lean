import SocketRpc.Json.Printer
import SocketRpc.Text.Quoted
namespace SocketRpc.Json

inductive Flaw where
  | endOfValue
  | endOfList
  | endOfObject
  | endOfText
  | badWord
  | noValue
  | badNumber
  | numberRange
  | listSeparator
  | objectSeparator
  | trailingComma
  | keyNotText
  | noColon
  | controlCharacter
  | badEscape
  | loneSurrogate
  | endOfEscape
  | notUnicode
  | trailing
  | tooDeep
deriving Repr, DecidableEq

namespace Flaw

def isEnd : Flaw → Bool
  | endOfValue | endOfList | endOfObject | endOfText => true
  | _ => false

def message : Flaw → String
  | endOfValue => "EOF while parsing a value"
  | endOfList => "EOF while parsing a list"
  | endOfObject => "EOF while parsing an object"
  | endOfText => "EOF while parsing a string"
  | badWord => "expected ident"
  | noValue => "expected value"
  | badNumber => "invalid number"
  | numberRange => "number out of range"
  | listSeparator => "expected `,` or `]`"
  | objectSeparator => "expected `,` or `\x7d`"
  | trailingComma => "trailing comma"
  | keyNotText => "key must be a string"
  | noColon => "expected `:`"
  | controlCharacter => "control character (\\u0000-\\u001F) found while parsing a string"
  | badEscape => "invalid escape"
  | loneSurrogate => "lone leading surrogate in hex escape"
  | endOfEscape => "unexpected end of hex escape"
  | notUnicode => "invalid unicode code point"
  | trailing => "trailing characters"
  | tooDeep => "recursion limit exceeded"

end Flaw

inductive Found where
  | null
  | bool (b : Bool)
  | number (n : Number)
  | text (s : String)
  | array
  | object
deriving Repr, DecidableEq

namespace Found

def describe : Found → String
  | null => "null"
  | bool b => "boolean `" ++ (if b then "true" else "false") ++ "`"
  | number (.integer i) => "integer `" ++ toString i ++ "`"
  | number (.real x) => "floating point `" ++ String.ofList (Number.real x).chars ++ "`"
  | text s => "string " ++ Text.quoted s
  | array => "sequence"
  | object => "map"

def ofValue : Value → Found
  | .null => null
  | .bool b => bool b
  | .number n => number n
  | .text s => text s
  | .array _ => array
  | .object _ => object

end Found

inductive Mismatch where
  | missingField (name : String)
  | duplicateField (name : String)
  | wrongType (found : Found) (wanted : String)
  | wrongValue (found : Int) (wanted : String)
  | wrongLength (length : Nat) (wanted : String)
  | noVariant (type : String)
deriving Repr, DecidableEq

def Mismatch.message : Mismatch → String
  | missingField name => "missing field `" ++ name ++ "`"
  | duplicateField name => "duplicate field `" ++ name ++ "`"
  | wrongType found wanted => "invalid type: " ++ found.describe ++ ", expected " ++ wanted
  | wrongValue found wanted => "invalid value: integer `" ++ toString found ++ "`, expected " ++ wanted
  | wrongLength n wanted => "invalid length " ++ toString n ++ ", expected " ++ wanted
  | noVariant type => "data did not match any variant of untagged enum " ++ type

inductive Problem where
  | flaw (f : Flaw)
  | mismatch (m : Mismatch)
deriving Repr, DecidableEq

def Problem.message : Problem → String
  | flaw f => f.message
  | mismatch m => m.message

end SocketRpc.Json
