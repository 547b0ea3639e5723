/-!
# Session tokens

A session token has forty ASCII letters and digits, each taken from the upper six bits of a
random word; words whose upper bits name no letter or digit are passed over. When the given
words have run out, zeros follow.
-/

set_option autoImplicit false

namespace Proctor.Token

/-- The letters and digits, by value. -/
def alphabet : List Char := "ABCDEFGHIJKLMNOPQRSTUVWXYZabcdefghijklmnopqrstuvwxyz0123456789".toList

def length : Nat := 40

def isLetterOrDigit (c : Char) : Bool := c.isAlphanum

/-- The letter or digit of a word. -/
def char? (v : UInt32) : Option Char := alphabet[(v >>> 26).toNat]?

/-- The token that the words make. -/
def ofWords (words : List UInt32) : String :=
  String.ofList (((words ++ List.replicate length 0).filterMap char?).take length)

/-- The text has the form of a token. -/
def wellFormed (token : String) : Bool := token.length == length && token.toList.all isLetterOrDigit

example : wellFormed (ofWords [0, 0xFFFFFFFF, 0x04000000]) := by decide +kernel

end Proctor.Token
