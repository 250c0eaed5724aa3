import ConfigManager.Library.LabelledTree
import ConfigManager.Source.Result

/-!
# Path grammar (config_path.hpp, config_path.cpp)

The scanner of `ConfigPath::parse`. The unread suffix of the text stands for the
source's `pos`; an offset in a message is the length already consumed. Each
round of either loop consumes at least one byte, so the length of the text bounds
the rounds.
-/

set_option autoImplicit false

namespace ConfigManager.Source
open Library

abbrev PathSegment := Step Bytes

def dot : UInt8 := 46
def openBracket : UInt8 := 91
def closeBracket : UInt8 := 93

/-- One past the largest `std::size_t`. -/
def sizeLimit : Nat := 2 ^ 64

def isReserved (c : UInt8) : Bool := c == dot || c == openBracket || c == closeBracket

def quoted (text : Bytes) : Bytes := bytes "\"" ++ text ++ bytes "\""

def offsetText (text rest : Bytes) : Bytes := natText (text.length - rest.length)

namespace ConfigPath

/-- `index* := ( "[" digit+ "]" )*`, appended to the segments read so far. -/
def parseIndices (text : Bytes) :
    Nat → Bytes → List PathSegment → Result (Bytes × List PathSegment)
  | 0, _, _ => fail .invalidPath (bytes "path longer than its text")
  | _ + 1, [], segments => .ok ([], segments)
  | rounds + 1, c :: rest, segments =>
      if c != openBracket then .ok (c :: rest, segments)
      else
        let digits := rest.takeWhile isDigit
        let afterDigits := rest.dropWhile isDigit
        if digits.isEmpty then
          fail .invalidPath (bytes "index must be decimal digits at offset " ++
            offsetText text rest ++ bytes " in " ++ quoted text)
        else match afterDigits with
          | [] =>
              fail .invalidPath (bytes "unterminated or non-decimal index at offset " ++
                offsetText text rest ++ bytes " in " ++ quoted text)
          | close :: afterIndex =>
              if close != closeBracket then
                fail .invalidPath (bytes "unterminated or non-decimal index at offset " ++
                  offsetText text rest ++ bytes " in " ++ quoted text)
              else if sizeLimit ≤ digitsValue digits then
                fail .invalidPath (bytes "index overflows std::size_t in " ++ quoted text)
              else parseIndices text rounds afterIndex (segments ++ [.index (digitsValue digits)])

/-- `path := segment ( "." segment )*` with `segment := key index*`. -/
def parseSegments (text : Bytes) : Nat → Bytes → List PathSegment → Result (List PathSegment)
  | 0, _, _ => fail .invalidPath (bytes "path longer than its text")
  | rounds + 1, rest, segments =>
      let key := rest.takeWhile fun c => !isReserved c
      let afterKey := rest.dropWhile fun c => !isReserved c
      if key.isEmpty then
        fail .invalidPath (bytes "empty key at offset " ++ offsetText text rest ++ bytes " in " ++
          quoted text)
      else
        match parseIndices text (afterKey.length + 1) afterKey (segments ++ [.key key]) with
        | .error e => .error e
        | .ok ([], read) => .ok read
        | .ok (c :: next, read) =>
            -- A "." requires another segment; anything else is a stray byte.
            if c == dot then parseSegments text rounds next read
            else
              fail .invalidPath (bytes "unexpected '" ++ [c] ++ bytes "' at offset " ++
                offsetText text (c :: next) ++ bytes " in " ++ quoted text)

def parse (text : Bytes) : Result (List PathSegment) :=
  if text.isEmpty then fail .invalidPath (bytes "empty path")
  else parseSegments text (text.length + 1) text []

example : parse (bytes "a.b[2][03].c") =
    .ok [.key (bytes "a"), .key (bytes "b"), .index 2, .index 3, .key (bytes "c")] := by decide

end ConfigPath

end ConfigManager.Source
