/-
  Compact text reads back: every document is the one its compact text spells (`read_compact`).

  Both halves of the reader are followed over what the writer wrote: the scanner character by
  character to the document's tokens, and the automaton over those tokens to the document. Only a
  number needs to know what comes after it, so what is scanned in one piece stands before a
  separator or at the end.
-/
import Mathlib.Tactic.SplitIfs
import MiddleEnd.Json.Read
import MiddleEnd.Json.Write

namespace MiddleEnd.Json

/-! ## The scanner over a piece of text -/

/-- Scanning the piece leads from one state to the other and finds these tokens. -/
def Scan.Passes (before : Scan) (piece : List Char) (after : Scan) (tokens : List Token) : Prop :=
  ∀ found rest, scanFrom before found (piece ++ rest) =
    scanFrom after (tokens.reverse ++ found) rest

namespace Scan.Passes

theorem refl (s : Scan) : s.Passes [] s [] := fun _ _ => rfl

theorem step {s s' : Scan} {c : Char} {ts : List Token} (h : s.step c = some (s', ts)) :
    s.Passes [c] s' ts := by
  intro found rest
  simp only [List.cons_append, List.nil_append, scanFrom, h]

theorem trans {s s' s'' : Scan} {cs ds : List Char} {ts us : List Token}
    (h : s.Passes cs s' ts) (h' : s'.Passes ds s'' us) : s.Passes (cs ++ ds) s'' (ts ++ us) := by
  intro found rest
  rw [List.append_assoc, h, h', List.reverse_append, List.append_assoc]

/-- A character that completes no token, and what follows it. -/
theorem via {s s'' : Scan} {c : Char} {cs : List Char} {ts : List Token} (s' : Scan)
    (h : s.step c = some (s', [])) (h' : s'.Passes cs s'' ts) : s.Passes (c :: cs) s'' ts :=
  (step h).trans h'

end Scan.Passes

/-- The text is over or goes on with a separator. -/
def Ends (cs : List Char) : Prop := ∀ c ∈ cs.head?, c = ',' ∨ c = ']' ∨ c = '}'

theorem ends_nil : Ends [] := by simp [Ends]

theorem Ends.append {cs ds : List Char} (h : Ends cs) (hcs : cs ≠ []) : Ends (cs ++ ds) := by
  cases cs with
  | nil => exact absurd rfl hcs
  | cons c cs => simpa [Ends] using h

/-- The piece spells these tokens wherever it ends. -/
def Spells (piece : List Char) (tokens : List Token) : Prop :=
  ∀ found rest, Ends rest →
    scanFrom .idle found (piece ++ rest) = scanFrom .idle (tokens.reverse ++ found) rest

namespace Spells

variable {cs ds : List Char} {ts us : List Token}

theorem of_passes (h : Scan.Passes .idle cs .idle ts) : Spells cs ts := fun found rest _ =>
  h found rest

theorem after (h : Scan.Passes .idle cs .idle ts) (h' : Spells ds us) :
    Spells (cs ++ ds) (ts ++ us) := by
  intro found rest hends
  rw [List.append_assoc, h, h' _ _ hends, List.reverse_append, List.append_assoc]

theorem before (h : Spells cs ts) (h' : Spells ds us) (hends : Ends ds) (hds : ds ≠ []) :
    Spells (cs ++ ds) (ts ++ us) := by
  intro found rest hrest
  rw [List.append_assoc, h _ _ (hends.append hds), h' _ _ hrest, List.reverse_append,
    List.append_assoc]

end Spells

/-! ## Words and numbers -/

theorem passes_word (token : Token) (d : Char) (word : List Char) :
    Scan.Passes (.word d word token) (d :: word) .idle [token] := by
  induction word generalizing d with
  | nil => exact .step (by simp [Scan.step])
  | cons e word ih => exact .via _ (by simp [Scan.step]) (ih e)

/-- What a number may be when a separator ends it. -/
theorem spells_number {cs : List Char} {part : NumberPart} {token : Token}
    (h : Scan.Passes .idle cs (.number part) []) (htoken : part.token? = some token)
    (hstop : ∀ c, c = ',' ∨ c = ']' ∨ c = '}' → part.step c = .stop) : Spells cs [token] := by
  intro found rest hends
  rw [h]
  cases rest with
  | nil => simp [scanFrom, Scan.finish, htoken]
  | cons c rest =>
    have hc := hends c rfl
    have hidle : ∃ t, stepIdle c = some (.idle, [t]) := by
      rcases hc with rfl | rfl | rfl <;> exact ⟨_, rfl⟩
    obtain ⟨t, ht⟩ := hidle
    simp [scanFrom, Scan.step, hstop c hc, htoken, ht]

theorem isDigit_digitChar {n : Nat} (h : n < 10) : isDigit n.digitChar = true := by
  have : ∀ n < 10, isDigit n.digitChar = true := by decide
  exact this n h

theorem digitValue_digitChar {n : Nat} (h : n < 10) : digitValue n.digitChar = n :=
  Nat.toNat_digitChar_sub_48_of_lt_ten h

theorem stepIdle_digitChar {n : Nat} (h : n < 10) (hn : 0 < n) :
    stepIdle n.digitChar = some (.number (.whole (some n) false), []) := by
  have : ∀ n < 10, 0 < n →
      stepIdle n.digitChar = some (.number (.whole (some n) false), []) := by decide
  exact this n h hn

/-- The digits of a positive number, read from the first to the last. -/
theorem passes_digits {n : Nat} (h : 0 < n) :
    Scan.Passes .idle (Nat.toDigits 10 n) (.number (.whole (some n) false)) [] := by
  induction n using Nat.strongRecOn with
  | ind n ih =>
    by_cases hlt : n < 10
    · rw [Nat.toDigits_of_lt_base hlt]
      exact .step (stepIdle_digitChar hlt h)
    · have hlast : n % 10 < 10 := Nat.mod_lt n (by omega)
      rw [Nat.toDigits_of_base_le (by omega) (by omega)]
      refine (ih (n / 10) (by omega) (by omega)).trans (.step ?_)
      simp [Scan.step, NumberPart.step, isDigit_digitChar hlast, digitValue_digitChar hlast]
      omega

theorem stop_whole (value : Option Nat) (zero : Bool) (c : Char)
    (h : c = ',' ∨ c = ']' ∨ c = '}') : (NumberPart.whole value zero).step c = .stop := by
  rcases h with rfl | rfl | rfl <;> rfl

theorem spells_nat (n : Nat) : Spells n.repr.toList [.nat n] := by
  rw [Nat.toList_repr]
  by_cases h : 0 < n
  · exact spells_number (passes_digits h) rfl (stop_whole _ _)
  · obtain rfl : n = 0 := by omega
    exact spells_number (.step rfl) rfl (stop_whole (some 0) true)

theorem spells_otherNumber : Spells otherNumberText.toList [.otherNumber] :=
  spells_number (.via (.number .sign) rfl (.step rfl)) rfl (stop_whole none true)

/-! ## Strings -/

theorem hexValue_hexDigit {n : Nat} (h : n < 16) : hexValue? (hexDigit n) = some n := by
  have : ∀ n < 16, hexValue? (hexDigit n) = some n := by decide
  exact this n h

/-- An escaped control character is the one its two digits name. -/
theorem passes_control (p : Partial) {c : Char} (h : c.toNat < 0x20) :
    Scan.Passes (.str p .none)
      ['\\', 'u', '0', '0', hexDigit (c.toNat / 16), hexDigit (c.toNat % 16)]
      (.str (p.push c) .none) [] := by
  have hhigh : hexValue? (hexDigit (c.toNat / 16)) = some (c.toNat / 16) :=
    hexValue_hexDigit (by omega)
  have hlow : hexValue? (hexDigit (c.toNat % 16)) = some (c.toNat % 16) :=
    hexValue_hexDigit (by omega)
  have hunit : p.pushUnit (c.toNat / 16 * 16 + c.toNat % 16) = p.push c := by
    rw [Nat.div_add_mod', Partial.pushUnit]
    split
    · next half hhalf => simp [Partial.push, hhalf, show ¬ 0xDC00 ≤ c.toNat by omega]
    · simp [show ¬ 0xD800 ≤ c.toNat by omega, show ¬ 0xDC00 ≤ c.toNat by omega]
  refine .via (.str p .backslash) rfl (.via (.str p (.unicode 4 0)) rfl ?_)
  refine .via (.str p (.unicode 3 0)) rfl (.via (.str p (.unicode 2 0)) rfl ?_)
  refine .via (.str p (.unicode 1 (c.toNat / 16))) ?_ (.step ?_)
  · simp [Scan.step, stepString, hhigh]
  · simp [Scan.step, stepString, hlow, hunit]

/-- A character written between quotes is pushed. -/
theorem passes_escape (p : Partial) (c : Char) :
    Scan.Passes (.str p .none) (escape c) (.str (p.push c) .none) [] := by
  have hpair : ∀ d, d ≠ 'u' → escaped? d = some c →
      Scan.Passes (.str p .none) ['\\', d] (.str (p.push c) .none) [] := fun d hd he =>
    .via (.str p .backslash) rfl (.step (by simp [Scan.step, stepString, hd, he]))
  rw [escape]
  split_ifs with h₁ h₂ h₃ h₄ h₅ h₆ h₇ h₈
  · exact hpair _ (by decide) (by rw [h₁]; rfl)
  · exact hpair _ (by decide) (by rw [h₂]; rfl)
  · exact hpair _ (by decide) (by rw [h₃]; rfl)
  · exact hpair _ (by decide) (by rw [h₄]; rfl)
  · exact hpair _ (by decide) (by rw [h₅]; rfl)
  · exact hpair _ (by decide) (by rw [h₆]; rfl)
  · exact hpair _ (by decide) (by rw [h₇]; rfl)
  · exact passes_control p h₈
  · exact .step (by simp [Scan.step, stepString, h₁, h₂, h₈])

theorem passes_escapes (p : Partial) (cs : List Char) :
    Scan.Passes (.str p .none) (cs.flatMap escape) (.str (cs.foldl Partial.push p) .none) [] := by
  induction cs generalizing p with
  | nil => exact .refl _
  | cons c cs ih => exact (passes_escape p c).trans (ih (p.push c))

theorem foldl_push (done cs : List Char) :
    cs.foldl Partial.push ⟨some done, none⟩ = ⟨some (cs.reverse ++ done), none⟩ := by
  induction cs generalizing done with
  | nil => rfl
  | cons c cs ih => simp [Partial.push, ih]

theorem passes_quote (s : Option String) :
    Scan.Passes .idle (quote s).toList .idle [.str s] := by
  cases s with
  | none => intro found rest; rfl
  | some s =>
    have hclose : (Scan.str (s.toList.foldl Partial.push .empty) .none).step '"' =
        some (.idle, [.str (some s)]) := by
      simp [Scan.step, stepString, Partial.empty, foldl_push, Partial.text?]
    simpa [quote] using Scan.Passes.via (c := '"') _ rfl
      ((passes_escapes .empty s.toList).trans (.step hclose))

/-! ## The tokens of a document -/

mutual

/-- The tokens that a document is written with. -/
def tokens : Json → List Token
  | .arr items => .openArray :: (itemTokens items ++ [.closeArray])
  | .obj entries => .openObject :: (entryTokens entries ++ [.closeObject])
  | .null => [.null]
  | .bool b => [.bool b]
  | .nat n => [.nat n]
  | .otherNumber => [.otherNumber]
  | .str s => [.str s]

def itemTokens : List Json → List Token
  | [] => []
  | [j] => tokens j
  | j :: k :: rest => tokens j ++ .comma :: itemTokens (k :: rest)

def entryTokens : List (Option String × Json) → List Token
  | [] => []
  | [(key, j)] => .str key :: .colon :: tokens j
  | (key, j) :: e :: rest =>
    .str key :: .colon :: tokens j ++ .comma :: entryTokens (e :: rest)

end

theorem passes_symbol {c : Char} {t : Token} (h : stepIdle c = some (.idle, [t])) :
    Scan.Passes .idle [c] .idle [t] := .step h

mutual

theorem spells_compact : ∀ j : Json, Spells j.compact.toList (tokens j)
  | .null => .of_passes (.via _ rfl (passes_word .null 'u' ['l', 'l']))
  | .bool true => .of_passes (.via _ rfl (passes_word (.bool true) 'r' ['u', 'e']))
  | .bool false => .of_passes (.via _ rfl (passes_word (.bool false) 'a' ['l', 's', 'e']))
  | .nat n => spells_nat n
  | .otherNumber => spells_otherNumber
  | .str s => .of_passes (passes_quote s)
  | .arr items => by
    have h := (Spells.after (passes_symbol (c := '[') rfl)
      ((spells_items items).before (.of_passes (passes_symbol (c := ']') rfl))
        (by simp [Ends]) (by simp)))
    simpa [compact, tokens] using h
  | .obj entries => by
    have h := (Spells.after (passes_symbol (c := '{') rfl)
      ((spells_entries entries).before (.of_passes (passes_symbol (c := '}') rfl))
        (by simp [Ends]) (by simp)))
    simpa [compact, tokens] using h

theorem spells_items : ∀ items : List Json, Spells (compactItems items).toList (itemTokens items)
  | [] => .of_passes (.refl _)
  | [j] => spells_compact j
  | j :: k :: rest => by
    have hrest := Spells.after (passes_symbol (c := ',') rfl) (spells_items (k :: rest))
    simpa [compactItems, itemTokens] using
      (spells_compact j).before hrest (by simp [Ends]) (by simp)

theorem spells_entries : ∀ entries : List (Option String × Json),
    Spells (compactEntries entries).toList (entryTokens entries)
  | [] => .of_passes (.refl _)
  | [(key, j)] => by
    have hkey := (passes_quote key).trans (passes_symbol (c := ':') rfl)
    simpa [compactEntries, entryTokens] using (spells_compact j).after hkey
  | (key, j) :: e :: rest => by
    have hkey := (passes_quote key).trans (passes_symbol (c := ':') rfl)
    have hrest := Spells.after (passes_symbol (c := ',') rfl) (spells_entries (e :: rest))
    simpa [compactEntries, entryTokens] using
      ((spells_compact j).before hrest (by simp [Ends]) (by simp)).after hkey

end

theorem scan_compact (j : Json) : scan j.compact = some (tokens j) := by
  have h := spells_compact j [] [] ends_nil
  simpa [scan, scanFrom, Scan.finish] using h

/-! ## The automaton over the tokens -/

theorem tokens_cons (j : Json) : ∃ t ts, tokens j = t :: ts ∧ t ≠ .closeArray := by
  cases j <;> simp [tokens]

theorem readFrom_cons {r r' : Reading} {t : Token} (h : r.step t = some r') {ts : List Token} :
    readFrom r (t :: ts) = readFrom r' ts := by
  simp only [readFrom, h]

theorem itemTokens_cons (j : Json) (items : List Json) :
    ∃ t ts, itemTokens (j :: items) = t :: ts ∧ t ≠ .closeArray := by
  obtain ⟨t, ts, htokens, ht⟩ := tokens_cons j
  cases items <;> simp [itemTokens, htokens, ht]

/-- The first element of a list is read like the later ones. -/
theorem readFrom_firstItem (j : Json) (items : List Json) (open_ : List Frame)
    (rest : List Token) :
    readFrom (.firstItem open_) (itemTokens (j :: items) ++ rest) =
      readFrom (.value (.list [] :: open_)) (itemTokens (j :: items) ++ rest) := by
  obtain ⟨t, ts, htokens, ht⟩ := itemTokens_cons j items
  have hstep : (Reading.firstItem open_).step t = (Reading.value (.list [] :: open_)).step t := by
    cases t <;> first | rfl | exact absurd rfl ht
  simp only [htokens, List.cons_append, readFrom, hstep]

theorem readFrom_firstKey (e : Option String × Json) (entries : List (Option String × Json))
    (open_ : List Frame) (rest : List Token) :
    readFrom (.firstKey open_) (entryTokens (e :: entries) ++ rest) =
      readFrom (.key [] open_) (entryTokens (e :: entries) ++ rest) := by
  cases entries <;> rfl

mutual

theorem readFrom_tokens : ∀ (j : Json) (open_ : List Frame) (rest : List Token),
    readFrom (.value open_) (tokens j ++ rest) = readFrom (.after j open_) rest
  | .null, _, _ => rfl
  | .bool _, _, _ => rfl
  | .nat _, _, _ => rfl
  | .otherNumber, _, _ => rfl
  | .str _, _, _ => rfl
  | .arr [], _, _ => rfl
  | .arr (j :: items), open_, rest => by
    have hopen : (Reading.value open_).step .openArray = some (.firstItem open_) := rfl
    rw [tokens, List.cons_append, readFrom_cons hopen, List.append_assoc, readFrom_firstItem]
    exact readFrom_items (j :: items) (by simp) [] open_ rest
  | .obj [], _, _ => rfl
  | .obj (e :: entries), open_, rest => by
    have hopen : (Reading.value open_).step .openObject = some (.firstKey open_) := rfl
    rw [tokens, List.cons_append, readFrom_cons hopen, List.append_assoc, readFrom_firstKey]
    exact readFrom_entries (e :: entries) (by simp) [] open_ rest

/-- The elements of a list after those already read, and the closing bracket. -/
theorem readFrom_items : ∀ items : List Json, items ≠ [] → ∀ (read : List Json)
    (open_ : List Frame) (rest : List Token),
    readFrom (.value (.list read :: open_)) (itemTokens items ++ .closeArray :: rest) =
      readFrom (.after (.arr (read.reverse ++ items)) open_) rest
  | [], h, _, _, _ => absurd rfl h
  | [j], _, read, open_, rest => by
    rw [itemTokens, readFrom_tokens, readFrom_cons rfl, List.reverse_cons]
  | j :: k :: items, _, read, open_, rest => by
    rw [itemTokens, List.append_assoc, readFrom_tokens, List.cons_append, readFrom_cons rfl,
      readFrom_items (k :: items) (by simp), List.reverse_cons, List.append_assoc]
    rfl

/-- The entries of an object after those already read, and the closing brace. -/
theorem readFrom_entries : ∀ entries : List (Option String × Json), entries ≠ [] →
    ∀ (read : List (Option String × Json)) (open_ : List Frame) (rest : List Token),
    readFrom (.key read open_) (entryTokens entries ++ .closeObject :: rest) =
      readFrom (.after (.obj (read.reverse ++ entries)) open_) rest
  | [], h, _, _, _ => absurd rfl h
  | [(key, j)], _, read, open_, rest => by
    rw [entryTokens, List.cons_append, readFrom_cons rfl, List.cons_append, readFrom_cons rfl,
      readFrom_tokens, readFrom_cons rfl, List.reverse_cons]
  | (key, j) :: e :: entries, _, read, open_, rest => by
    rw [entryTokens, List.cons_append, List.cons_append, readFrom_cons rfl, List.cons_append,
      List.cons_append, readFrom_cons rfl, List.append_assoc, readFrom_tokens, List.cons_append,
      readFrom_cons rfl, readFrom_entries (e :: entries) (by simp), List.reverse_cons,
      List.append_assoc]
    rfl

end

/-- A document is the one that its compact text spells. -/
theorem read_compact (j : Json) : read j.compact = some j := by
  have h := readFrom_tokens j [] []
  rw [List.append_nil] at h
  rw [read, scan_compact, Option.bind_some, h]
  rfl

end MiddleEnd.Json
