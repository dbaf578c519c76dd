import FlowGraph.Source.Literal
import Mathlib.Tactic.FinCases

/-!
The text of a constant tells which constant it is. What kind it is shows in the last character, and a
quoted text is read back one character at a time; it is a single line with no bare quote inside.
-/

namespace FlowGraph

namespace Text

inductive Mode where
  | outside
  | inside
  | escaped
  | unicode
  | numbered (value : Nat)
  | closed
  deriving DecidableEq

structure Reader where
  mode : Mode := .outside
  read : List Char := []
  deriving DecidableEq

def ofMnemonic? : Char → Option Char
  | '0' => some '\x00'
  | 't' => some '\t'
  | 'r' => some '\r'
  | 'n' => some '\n'
  | '\\' => some '\\'
  | '"' => some '"'
  | _ => none

def hexDigit? (c : Char) : Option Nat :=
  (List.range 16).find? fun d => d.digitChar == c

def Reader.next : Reader → Char → Option Reader
  | ⟨.outside, cs⟩, c => if c = '"' then some ⟨.inside, cs⟩ else none
  | ⟨.inside, cs⟩, c =>
    if c = '"' then some ⟨.closed, cs⟩
    else if c = '\\' then some ⟨.escaped, cs⟩
    else some ⟨.inside, cs ++ [c]⟩
  | ⟨.escaped, cs⟩, c =>
    if c = 'u' then some ⟨.unicode, cs⟩ else (ofMnemonic? c).map fun c => ⟨.inside, cs ++ [c]⟩
  | ⟨.unicode, cs⟩, c => if c = '\x7b' then some ⟨.numbered 0, cs⟩ else none
  | ⟨.numbered n, cs⟩, c =>
    if c = '\x7d' then some ⟨.inside, cs ++ [Char.ofNat n]⟩
    else (hexDigit? c).map fun d => ⟨.numbered (16 * n + d), cs⟩
  | ⟨.closed, _⟩, _ => none

def unquote (s : String) : Option String :=
  match s.toList.foldlM Reader.next {} with
  | some ⟨.closed, cs⟩ => some (String.ofList cs)
  | _ => none

def isLineBreak (c : Char) : Bool :=
  c ∈ ['\n', '\x0b', '\x0c', '\r', '\u0085', '\u2028', '\u2029']

def hasBareQuote : List Char → Bool
  | [] => false
  | '\\' :: _ :: cs => hasBareQuote cs
  | c :: cs => c == '"' || hasBareQuote cs

theorem hexDigit?_digitChar : ∀ d < 16, hexDigit? d.digitChar = some d := by decide

theorem digitChar_plain :
    ∀ d < 16, d.digitChar ≠ '\x7d' ∧ d.digitChar ≠ '"' ∧ d.digitChar ≠ '\\' ∧
      isLineBreak d.digitChar = false := by
  decide

theorem ofMnemonic?_of_mnemonic? {c m : Char} (h : mnemonic? c = some m) :
    ofMnemonic? m = some c ∧ m ≠ 'u' ∧ isLineBreak m = false := by
  unfold mnemonic? at h
  split at h
  case h_7 => cases h
  all_goals
    obtain rfl := Option.some.inj h
    decide

theorem exists_digit_of_mem_toDigits {n : Nat} {c : Char} (h : c ∈ Nat.toDigits 16 n) :
    ∃ d < 16, c = d.digitChar := by
  induction n using Nat.strongRecOn with
  | ind n ih =>
    rw [Nat.toDigits_eq_if (by decide)] at h
    split at h
    · next hlt => exact ⟨n, hlt, by simpa using h⟩
    · next hge =>
      rcases List.mem_append.mp h with h | h
      · exact ih (n / 16) (Nat.div_lt_self (by omega) (by decide)) h
      · exact ⟨n % 16, Nat.mod_lt _ (by decide), by simpa using h⟩

theorem plain_of_shown {c : Char} (hm : mnemonic? c = none) (hh : isHidden c = false) :
    c ≠ '"' ∧ c ≠ '\\' ∧ isLineBreak c = false := by
  refine ⟨?_, ?_, ?_⟩
  · rintro rfl
    cases hm
  · rintro rfl
    cases hm
  · -- a line break has a mnemonic or is in the table of what is hidden
    rw [isLineBreak, decide_eq_false_iff_not]
    intro hc
    fin_cases hc <;> revert hm hh <;> decide +kernel

namespace Reader

variable {cs : List Char}

theorem toDigits (n : Nat) :
    (Nat.toDigits 16 n).foldlM next ⟨.numbered 0, cs⟩ = some ⟨.numbered n, cs⟩ := by
  have hdigit : ∀ m, ∀ d < 16, next ⟨.numbered m, cs⟩ d.digitChar = some ⟨.numbered (16 * m + d), cs⟩ :=
    fun m d hd => by simp [next, hexDigit?_digitChar d hd, (digitChar_plain d hd).1]
  induction n using Nat.strongRecOn with
  | ind n ih =>
    rw [Nat.toDigits_eq_if (by decide)]
    split
    · next hlt => simp [hdigit 0 n hlt]
    · next hge =>
      have hdiv := ih (n / 16) (Nat.div_lt_self (by omega) (by decide))
      have hmod := hdigit (n / 16) (n % 16) (Nat.mod_lt _ (by decide))
      simp [hdiv, hmod, Nat.div_add_mod]

theorem codePoint (c : Char) :
    (Text.codePoint c).foldlM next ⟨.inside, cs⟩ = some ⟨.inside, cs ++ [c]⟩ := by
  have hopen : ['\\', 'u', '\x7b'].foldlM next ⟨.inside, cs⟩ = some ⟨.numbered 0, cs⟩ := rfl
  have hclose : ['\x7d'].foldlM next ⟨.numbered c.toNat, cs⟩ = some ⟨.inside, cs ++ [c]⟩ := by
    simp [next, Char.ofNat_toNat]
  rw [Text.codePoint, List.foldlM_append, List.foldlM_append, hopen]
  simp only [Option.bind_eq_bind, Option.bind_some, toDigits, hclose]

theorem escape (c : Char) :
    (Text.escape c).foldlM next ⟨.inside, cs⟩ = some ⟨.inside, cs ++ [c]⟩ := by
  cases hm : mnemonic? c with
  | some m =>
    obtain ⟨hback, hne, -⟩ := ofMnemonic?_of_mnemonic? hm
    simp [Text.escape, hm, next, hback, hne]
  | none =>
    cases hh : isHidden c with
    | true => simpa [Text.escape, hm, hh] using codePoint c
    | false =>
      obtain ⟨hquote, hslash, -⟩ := plain_of_shown hm hh
      simp [Text.escape, hm, hh, next, hquote, hslash]

theorem flatMap_escape (text : List Char) :
    (text.flatMap Text.escape).foldlM next ⟨.inside, cs⟩ = some ⟨.inside, cs ++ text⟩ := by
  induction text generalizing cs with
  | nil => simp
  | cons c text ih =>
    rw [List.flatMap_cons, List.foldlM_append, escape]
    simpa using @ih (cs ++ [c])

end Reader

theorem unquote_quote (s : String) : unquote (quote s) = some s := by
  have hread : (quote s).toList.foldlM Reader.next {} = some ⟨.closed, s.toList⟩ := by
    rw [quote, String.toList_ofList, List.cons_append, List.foldlM_cons]
    have hstart : Reader.next {} '"' = some ⟨.inside, []⟩ := rfl
    rw [hstart, Option.bind_eq_bind, Option.bind_some, List.foldlM_append, Reader.flatMap_escape]
    rfl
  simp [unquote, hread]

theorem quote_injective : Function.Injective quote := by
  intro s t h
  have hread := unquote_quote s
  rw [h, unquote_quote t] at hread
  exact (Option.some.inj hread).symm

theorem isLineBreak_of_mem_escape {c d : Char} (h : d ∈ escape c) : isLineBreak d = false := by
  cases hm : mnemonic? c with
  | some m =>
    simp only [escape, hm, List.mem_cons, List.not_mem_nil, or_false] at h
    rcases h with rfl | rfl
    · rfl
    · exact (ofMnemonic?_of_mnemonic? hm).2.2
  | none =>
    cases hh : isHidden c with
    | true =>
      simp only [escape, hm, hh, if_true, codePoint, List.mem_append, List.mem_cons, List.not_mem_nil,
        or_false] at h
      rcases h with ((rfl | rfl | rfl) | hd) | rfl
      case inl.inr =>
        obtain ⟨n, hn, rfl⟩ := exists_digit_of_mem_toDigits hd
        exact (digitChar_plain n hn).2.2.2
      all_goals rfl
    | false =>
      obtain rfl : d = c := by simpa [escape, hm, hh] using h
      exact (plain_of_shown hm hh).2.2

theorem hasBareQuote_cons {c : Char} (h : c ≠ '\\') (cs : List Char) :
    hasBareQuote (c :: cs) = (c == '"' || hasBareQuote cs) := by
  rw [hasBareQuote.eq_def]
  split <;> simp_all

theorem hasBareQuote_append {cs : List Char} (h : ∀ c ∈ cs, c ≠ '"' ∧ c ≠ '\\') (ds : List Char) :
    hasBareQuote (cs ++ ds) = hasBareQuote ds := by
  induction cs with
  | nil => rfl
  | cons c cs ih =>
    obtain ⟨hquote, hslash⟩ := h c (List.mem_cons_self ..)
    rw [List.cons_append, hasBareQuote_cons hslash, ih fun c hc => h c (List.mem_cons_of_mem _ hc)]
    simp [hquote]

theorem hasBareQuote_escape (c : Char) (cs : List Char) :
    hasBareQuote (escape c ++ cs) = hasBareQuote cs := by
  cases hm : mnemonic? c with
  | some m => simp [escape, hm, hasBareQuote]
  | none =>
    cases hh : isHidden c with
    | true =>
      have hplain : ∀ d ∈ '\x7b' :: Nat.toDigits 16 c.toNat ++ ['\x7d'], d ≠ '"' ∧ d ≠ '\\' := by
        intro d hd
        simp only [List.cons_append, List.mem_cons, List.mem_append, List.not_mem_nil, or_false] at hd
        rcases hd with rfl | hd | rfl
        case inr.inl =>
          obtain ⟨n, hn, rfl⟩ := exists_digit_of_mem_toDigits hd
          exact ⟨(digitChar_plain n hn).2.1, (digitChar_plain n hn).2.2.1⟩
        all_goals decide
      simpa [escape, hm, hh, codePoint, hasBareQuote] using hasBareQuote_append hplain cs
    | false =>
      obtain ⟨hquote, hslash, -⟩ := plain_of_shown hm hh
      simp [escape, hm, hh, hasBareQuote_cons hslash, hquote]

theorem hasBareQuote_flatMap_escape (text : List Char) :
    hasBareQuote (text.flatMap escape) = false := by
  induction text with
  | nil => rfl
  | cons c text ih => rw [List.flatMap_cons, hasBareQuote_escape, ih]

end Text

namespace Literal

def isFloat : Literal → Bool
  | .float _ => true
  | _ => false

def kindOf (c : Char) : Ty :=
  if c.isDigit then .int
  else if c = ')' then .nil
  else if c = 'e' then .boolean
  else if c = 'd' then .decimal
  else .string

theorem isDigit_of_getLast?_repr {n : Nat} {c : Char} (h : n.repr.toList.getLast? = some c) :
    c.isDigit = true := by
  rw [Nat.repr_eq_ofList_toDigits, String.toList_ofList] at h
  exact Nat.isDigit_of_mem_toDigits (by decide) (by decide) (List.mem_of_getLast? h)

theorem getLast?_toString (i : Int) : ∃ c, (toString i).toList.getLast? = some c ∧ c.isDigit = true := by
  have hnat : ∀ n : Nat, ∃ c, n.repr.toList.getLast? = some c := fun n => by
    rw [Nat.repr_eq_ofList_toDigits, String.toList_ofList]
    exact ⟨_, List.getLast?_eq_some_getLast Nat.toDigits_ne_nil⟩
  rw [Int.toString_eq_repr, Int.repr_eq_if]
  split
  · obtain ⟨c, hc⟩ := hnat i.toNat
    exact ⟨c, hc, isDigit_of_getLast?_repr hc⟩
  · obtain ⟨c, hc⟩ := hnat (-i).toNat
    exact ⟨c, by rw [String.toList_append, List.getLast?_append, hc]; rfl, isDigit_of_getLast?_repr hc⟩

theorem toString_injective : Function.Injective (toString : Int → String) := by
  have hnat : ∀ m n : Nat, m.repr = n.repr → m = n := fun m n h => by
    have hread := congrArg (fun s => Nat.ofDigitChars 10 s.toList 0) h
    simpa [Nat.toList_repr, Nat.ofDigitChars_toDigits] using hread
  have hsign : ∀ m n : Nat, m.repr ≠ "-" ++ n.repr := fun m n h => by
    have hmem : '-' ∈ Nat.toDigits 10 m := by simp [← Nat.toList_repr, h]
    cases Nat.isDigit_of_mem_toDigits (by decide) (by decide) hmem
  intro i j h
  rw [Int.toString_eq_repr, Int.toString_eq_repr, Int.repr_eq_if, Int.repr_eq_if] at h
  split at h <;> split at h
  · have := hnat _ _ h
    omega
  · exact absurd h (hsign _ _)
  · exact absurd h.symm (hsign _ _)
  · have := hnat _ _ ((String.append_right_inj "-").mp h)
    omega

theorem kindOf_getLast? {x : Literal} (hx : x.isFloat = false) :
    x.text.toList.getLast?.map kindOf = some x.ty := by
  cases x with
  | nil => decide
  | boolean value => cases value <;> decide
  | int value =>
    obtain ⟨c, hc, hd⟩ := getLast?_toString value.toInt
    rw [text, hc]
    simp [kindOf, hd, ty]
  | float => cases hx
  | decimal text => simp [Literal.text, kindOf, ty]
  | string text =>
    rw [Literal.text, Text.quote, String.toList_ofList, List.getLast?_append]
    rfl

theorem text_inj {x y : Literal} (hx : x.isFloat = false) (hy : y.isFloat = false)
    (h : x.text = y.text) : x = y := by
  have hty : x.ty = y.ty := by
    have hkind := kindOf_getLast? hx
    rw [h, kindOf_getLast? hy] at hkind
    exact (Option.some.inj hkind).symm
  cases x with
  | nil =>
    cases y with
    | nil => rfl
    | _ => cases hty
  | boolean v =>
    cases y with
    | boolean w => cases v <;> cases w <;> simp [text] at h ⊢
    | _ => cases hty
  | int v =>
    cases y with
    | int w => rw [Int64.toInt_inj.mp (toString_injective h)]
    | _ => cases hty
  | float => cases hx
  | decimal s =>
    cases y with
    | decimal t => rw [(String.append_left_inj "d").mp h]
    | _ => cases hty
  | string s =>
    cases y with
    | string t => rw [Text.quote_injective h]
    | _ => cases hty

/-- The text of a constant that is not a float belongs to no other such constant. That of a string is
one line, its quotes inside are all escaped, and the string can be read back from it. -/
theorem text_unambiguous :
    (∀ x y : Literal, x.isFloat = false → y.isFloat = false → x.text = y.text → x = y) ∧
    ∀ s : String, ∃ body : List Char,
      (Literal.string s).text = String.ofList ('"' :: body ++ ['"']) ∧
      (∀ c ∈ body, Text.isLineBreak c = false) ∧ Text.hasBareQuote body = false ∧
      Text.unquote (Literal.string s).text = some s := by
  refine ⟨fun x y => text_inj, fun s => ⟨s.toList.flatMap Text.escape, rfl, ?_, ?_, ?_⟩⟩
  · intro c hc
    obtain ⟨d, -, hd⟩ := List.mem_flatMap.mp hc
    exact Text.isLineBreak_of_mem_escape hd
  · exact Text.hasBareQuote_flatMap_escape s.toList
  · exact Text.unquote_quote s

theorem text_deceptive :
    ((Literal.decimal "\"a").isFloat = false ∧ (Literal.string "ad").isFloat = false ∧
      (Literal.decimal "\"a").text ≠ (Literal.string "ad").text) ∧
    (∀ x : Literal, x.isFloat = false → x.text = "1e5d" → x = .decimal "1e5") ∧
    (Literal.string "\"\\\n\u2028").text = "\"\\\"\\\\\\n\\u\x7b2028\x7d\"" ∧
    Text.unquote (Literal.string "\"\\\n\u2028").text = some "\"\\\n\u2028" := by
  obtain ⟨hinj, hstring⟩ := text_unambiguous
  refine ⟨⟨rfl, rfl, fun h => ?_⟩, fun x hx h => hinj x _ hx rfl h, by decide +kernel, ?_⟩
  · cases hinj _ _ rfl rfl h
  · obtain ⟨-, -, -, -, hread⟩ := hstring "\"\\\n\u2028"
    exact hread

end Literal

end FlowGraph
