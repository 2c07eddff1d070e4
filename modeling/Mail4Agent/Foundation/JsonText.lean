import Mail4Agent.Foundation.Data

/-!
# A text form of JSON values

A printer and a reader that is its inverse. The text is a program for a stack of values:
a letter pushes a value without parts, and marks add a character, a unit, an element or a
field to the value below. What the reader has built is on top of the stack, so printing
and reading is followed one constructor at a time.
-/

namespace JsonText

/-- Adds the characters of a text to the string on top. -/
def marks (s : String) : List Char := s.toList.flatMap fun c => [',', c]

mutual

def print : Json → List Char
  | .null => ['N']
  | .bool b => [if b then 'T' else 'U']
  | .int n => 'I' :: List.replicate n.natAbs (if 0 ≤ n then '>' else '<')
  | .float text => 'F' :: marks text
  | .str s => 'S' :: marks s
  | .arr items => 'A' :: printItems items
  | .obj fields => 'O' :: printFields fields

def printItems : List Json → List Char
  | [] => []
  | v :: rest => print v ++ '+' :: printItems rest

def printFields : List (String × Json) → List Char
  | [] => []
  | (key, v) :: rest => 'S' :: marks key ++ (print v ++ ':' :: printFields rest)

end

/-- One letter or mark other than a character of a string. -/
def step (stack : List Json) (c : Char) : Option (List Json) :=
  match c, stack with
  | 'N', stack => some (.null :: stack)
  | 'T', stack => some (.bool true :: stack)
  | 'U', stack => some (.bool false :: stack)
  | 'I', stack => some (.int 0 :: stack)
  | 'F', stack => some (.float "" :: stack)
  | 'S', stack => some (.str "" :: stack)
  | 'A', stack => some (.arr [] :: stack)
  | 'O', stack => some (.obj [] :: stack)
  | '>', .int n :: stack => some (.int (n + 1) :: stack)
  | '<', .int n :: stack => some (.int (n - 1) :: stack)
  | '+', v :: .arr items :: stack => some (.arr (items ++ [v]) :: stack)
  | ':', v :: .str key :: .obj fields :: stack => some (.obj (fields ++ [(key, v)]) :: stack)
  | _, _ => none

/-- Adds a character to the string on top. -/
def addChar (c : Char) : List Json → Option (List Json)
  | .str s :: stack => some (.str (s.push c) :: stack)
  | .float s :: stack => some (.float (s.push c) :: stack)
  | _ => none

def run : List Json → List Char → Option (List Json)
  | stack, [] => some stack
  | stack, ',' :: c :: rest => (addChar c stack).bind fun stack => run stack rest
  | stack, c :: rest => (step stack c).bind fun stack => run stack rest

def render (v : Json) : String := String.ofList (print v)

def parse (text : String) : Option Json :=
  match run [] text.toList with
  | some [v] => some v
  | _ => none

/-! ### Reading back what was printed -/

variable {stack : List Json} {rest : List Char}

theorem run_cons {c : Char} (h : c ≠ ',') :
    run stack (c :: rest) = (step stack c).bind fun stack => run stack rest := by
  rw [run]
  exact fun _ _ hc _ => h hc

theorem run_replicate {c : Char} {d : Int} (hc : c ≠ ',')
    (hstep : ∀ (n : Int) stack, step (.int n :: stack) c = some (.int (n + d) :: stack)) (k : Nat)
    (n : Int) :
    run (.int n :: stack) (List.replicate k c ++ rest) = run (.int (n + k * d) :: stack) rest := by
  induction k generalizing n with
  | zero => simp
  | succ k ih =>
    rw [List.replicate_succ, List.cons_append, run_cons hc, hstep, Option.bind_some, ih]
    congr 3
    push_cast
    ring

theorem run_marks {f : String → Json}
    (hf : ∀ c s stack, addChar c (f s :: stack) = some (f (s.push c) :: stack)) (s acc : String) :
    run (f acc :: stack) (marks s ++ rest) = run (f (acc ++ s) :: stack) rest := by
  have hchars (chars : List Char) (acc : String) :
      run (f acc :: stack) (chars.flatMap (fun c => [',', c]) ++ rest) =
        run (f (acc ++ String.ofList chars) :: stack) rest := by
    induction chars generalizing acc with
    | nil => simp
    | cons c chars ih =>
      simp only [List.flatMap_cons, List.cons_append, List.nil_append, run, hf, Option.bind_some]
      rw [ih]
      congr 3
      ext
      simp
  rw [marks, hchars, String.ofList_toList]

mutual

theorem run_print (v : Json) (stack : List Json) (rest : List Char) :
    run stack (print v ++ rest) = run (v :: stack) rest := by
  cases v with
  | null => rfl
  | bool b => cases b <;> rfl
  | int n =>
    rw [print, List.cons_append, run_cons (by decide)]
    rcases Int.le_total 0 n with h | h
    · rw [if_pos h, step, Option.bind_some, run_replicate (d := 1) (by decide) (fun _ _ => rfl)]
      simp [abs_of_nonneg h]
    · rcases h.lt_or_eq with h | rfl
      · rw [if_neg h.not_ge, step, Option.bind_some,
          run_replicate (d := -1) (by decide) (fun _ _ => rfl)]
        simp [abs_of_neg h]
      · simp [step]
  | float text =>
    rw [print, List.cons_append, run_cons (by decide), step, Option.bind_some,
      run_marks fun _ _ _ => rfl, String.empty_append]
  | str s =>
    rw [print, List.cons_append, run_cons (by decide), step, Option.bind_some,
      run_marks fun _ _ _ => rfl, String.empty_append]
  | arr items =>
    rw [print, List.cons_append, run_cons (by decide), step, Option.bind_some,
      run_printItems items, List.nil_append]
  | obj fields =>
    rw [print, List.cons_append, run_cons (by decide), step, Option.bind_some,
      run_printFields fields, List.nil_append]

theorem run_printItems (items done : List Json) (stack : List Json) (rest : List Char) :
    run (.arr done :: stack) (printItems items ++ rest) =
      run (.arr (done ++ items) :: stack) rest := by
  cases items with
  | nil => simp [printItems]
  | cons v items =>
    rw [printItems, List.append_assoc, run_print v, List.cons_append, run_cons (by decide), step,
      Option.bind_some, run_printItems items, List.append_assoc, List.singleton_append]

theorem run_printFields (fields done : List (String × Json)) (stack : List Json)
    (rest : List Char) :
    run (.obj done :: stack) (printFields fields ++ rest) =
      run (.obj (done ++ fields) :: stack) rest := by
  match fields with
  | [] => simp [printFields]
  | (key, v) :: fields =>
    rw [printFields, List.append_assoc, List.cons_append, run_cons (by decide), step,
      Option.bind_some, run_marks fun _ _ _ => rfl, String.empty_append, List.append_assoc,
      run_print v, List.cons_append, run_cons (by decide), step, Option.bind_some,
      run_printFields fields, List.append_assoc, List.singleton_append]

end

theorem parse_render (v : Json) : parse (render v) = some v := by
  have h := run_print v [] []
  rw [List.append_nil] at h
  simp [parse, render, h, run]

/-! ### Documents with a name of their own

Where the texts of a few documents are read again and again, names stand for them. -/

section Named

variable (docs : List (String × Json))

def parseNamed (text : String) : Option Json := (docs.lookup text).or (parse text)

def renderNamed (v : Json) : String :=
  ((docs.find? fun doc => print doc.2 = print v).map Prod.fst).getD (render v)

theorem print_injective {v w : Json} (h : print v = print w) : v = w := by
  have hparse := parse_render v
  rw [render, h, ← render, parse_render] at hparse
  exact (Option.some.inj hparse).symm

/-- A name that is no text of a document, and no two documents of one name. -/
theorem parseNamed_renderNamed (hnames : (docs.map Prod.fst).Nodup)
    (htexts : ∀ doc ∈ docs, parse doc.1 = none) (v : Json) :
    parseNamed docs (renderNamed docs v) = some v := by
  unfold renderNamed parseNamed
  cases hfound : docs.find? fun doc => print doc.2 = print v with
  | some doc =>
    have hmem := List.mem_of_find?_eq_some hfound
    have hprint := List.find?_some hfound
    have hlookup : docs.lookup doc.1 = some doc.2 := by
      obtain ⟨before, after, rfl⟩ := List.append_of_mem hmem
      refine List.lookup_eq_some_iff.2 ⟨before, after, rfl, fun other hother => ?_⟩
      rw [List.map_append, List.map_cons, List.nodup_append] at hnames
      have hne := hnames.2.2 other.1 (List.mem_map_of_mem hother) doc.1 List.mem_cons_self
      simpa using hne.symm
    rw [Option.map_some, Option.getD_some, hlookup, Option.some_or,
      print_injective (of_decide_eq_true hprint)]
  | none =>
    have hlookup : docs.lookup (render v) = none := by
      rw [List.lookup_eq_none_iff]
      intro doc hdoc
      have hne : render v ≠ doc.1 := by
        intro heq
        have htext := htexts doc hdoc
        rw [← heq, parse_render] at htext
        cases htext
      simpa using hne
    rw [Option.map_none, Option.getD_none, hlookup, Option.none_or, parse_render]

end Named

end JsonText
