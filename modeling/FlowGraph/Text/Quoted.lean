import FlowGraph.Text.Hidden

/-!
Quoted text. A character that has a mnemonic is written as a backslash and the mnemonic, a hidden
one by its code point in braces, and every other one as it is; so a quoted text is one line and
ends at its first bare quote.
-/

namespace FlowGraph.Text

def mnemonic? : Char → Option Char
  | '\x00' => some '0'
  | '\t' => some 't'
  | '\r' => some 'r'
  | '\n' => some 'n'
  | '\\' => some '\\'
  | '"' => some '"'
  | _ => none

def codePoint (c : Char) : List Char :=
  ['\\', 'u', '\x7b'] ++ Nat.toDigits 16 c.toNat ++ ['\x7d']

def escape (c : Char) : List Char :=
  match mnemonic? c with
  | some m => ['\\', m]
  | none => if isHidden c then codePoint c else [c]

def quote (s : String) : String :=
  String.ofList ('"' :: s.toList.flatMap escape ++ ['"'])

end FlowGraph.Text
