import DeadlockCapture.Proofs.Xml.Bare
import DeadlockCapture.Proofs.Xml.Quotes
import DeadlockCapture.Proofs.Xml.Reached

/-!
Documents that differ between two quotes in the text of an element. Where the characters between
the quotes are ordinary text in both, the documents are taken alike, whatever is wrong elsewhere.
-/

namespace DeadlockCapture.Xml

open DeadlockCapture.Text

def sectionEnd : List Char :=
  [']', ']', '>']

/-- Where an element may have text: between its tags, or in a section of its own. -/
inductive Place where
  | text
  | verbatim
deriving DecidableEq, Repr

/-- The characters are ordinary text in such a place. -/
def Place.Holds (w : List Char) : Place → Prop
  | .text => (∀ c ∈ w, isAllowed c = true) ∧ '<' ∉ w ∧ holdsRun sectionEnd w = false ∧
      ∃ g, glyphsFrom 0 w = .ok g
  | .verbatim => (∀ c ∈ w, isAllowed c = true) ∧ holdsRun sectionEnd w = false

/-- What follows `pre` in a document stands in such a place, as far as the reader comes to it. -/
inductive LeadsTo (pre rest : List Char) : Place → Prop
  | text {front lead : List Char} {depth : Nat} : pre = front ++ lead →
      Reached (pre ++ rest) (.content depth) front.length → '<' ∉ lead → LeadsTo pre rest .text
  | verbatim {front lead : List Char} {depth : Nat} : pre = front ++ ("<![CDATA[".toList ++ lead) →
      Reached (pre ++ rest) (.content depth) front.length → holdsRun sectionEnd lead = false →
      LeadsTo pre rest .verbatim
  | unread {place : Place} : (∀ r r', tokens (pre ++ r) = tokens (pre ++ r')) →
      LeadsTo pre rest place

/-! ### A stretch of text -/

/-- A stretch of text up to the next bracket is faulty in itself, or it is a token. -/
theorem tokensFrom_stretch {raw r : List Char} (hsome : raw ≠ []) (hnoBracket : '<' ∉ raw)
    (hnext : ∀ d ∈ r.head?, d = '<') (depth offset : Nat) :
    tokensFrom (.content depth) offset (raw ++ r) =
      match allowedRun (fun _ => false) offset raw with
      | .error f => [.fault f]
      | .ok _ =>
        if holdsRun sectionEnd raw then [.fault ⟨.sectionEndInText, offset + raw.length⟩]
        else .text raw offset :: tokensFrom (.content depth) (offset + raw.length) r := by
  have hgoes : ∀ u v, u ++ v = raw → v ≠ [] →
      decide ((v ++ r).head? = Option.some '<') = false := by
    rintro u v rfl hfilled
    rw [decide_eq_false_iff_not, head?_append_of_some hfilled]
    intro hbracket
    exact hnoBracket (List.mem_append_right u (List.mem_of_mem_head? hbracket))
  have hstops (offset : Nat) : allowedRun (·.head? = Option.some '<') offset r = .ok 0 := by
    cases r with
    | nil => rfl
    | cons d t =>
        obtain rfl := hnext d rfl
        rfl
  have hrun : allowedRun (·.head? = Option.some '<') offset (raw ++ r) =
      (allowedRun (fun _ => false) offset raw).bind fun _ =>
        (allowedRun (·.head? = Option.some '<') (offset + raw.length) r).map (· + raw.length) :=
    allowedRun_append hgoes offset
  rw [hstops] at hrun
  obtain ⟨c, w, rfl⟩ := List.exists_cons_of_ne_nil hsome
  have hother : c ≠ '<' := fun hsame => hnoBracket (hsame ▸ List.mem_cons_self)
  rw [List.cons_append] at hrun ⊢
  rw [tokensFrom, step_text hother, textRun, hrun]
  cases allowedRun (fun _ => false) offset (c :: w) with
  | error f => rfl
  | ok n =>
      have hwhole : (c :: (w ++ r)).take (c :: w).length = c :: w := by
        rw [← List.cons_append, List.take_left]
      simp only [Except.bind, Except.map, Nat.zero_add, bind, hwhole, ← sectionEnd.eq_def]
      cases holdsRun sectionEnd (c :: w) with
      | true => rfl
      | false =>
          have hused : (c :: w).length - 1 = w.length := rfl
          have hplace : offset + 1 + w.length = offset + (c :: w).length := by
            rw [List.length_cons]
            omega
          simp only [Bool.false_eq_true, if_false, hused, hplace, List.drop_left,
            List.singleton_append]

/-- Every text is a stretch up to the next bracket, and what follows that. -/
theorem stretch_split (s : List Char) :
    ∃ raw r, s = raw ++ r ∧ '<' ∉ raw ∧ ∀ d ∈ r.head?, d = '<' := by
  refine ⟨_, _, (run_split (· ≠ '<') s).symm, ?_, ?_⟩
  · intro hbracket
    have hother := List.all_eq_true.mp List.all_takeWhile _ hbracket
    simp at hother
  · intro d hd
    simpa using run_stops (· ≠ '<') s d hd

theorem allowedRun_between {body body' : List Char} (hallowed : ∀ c ∈ body, isAllowed c = true)
    (hallowed' : ∀ c ∈ body', isAllowed c = true) (hlength : body.length = body'.length)
    (offset : Nat) (lead tail : List Char) :
    allowedRun (fun _ => false) offset (lead ++ '\x27' :: (body ++ '\x27' :: tail)) =
      allowedRun (fun _ => false) offset (lead ++ '\x27' :: (body' ++ '\x27' :: tail)) := by
  have hother := allowedRun_other hallowed hallowed' hlength offset (lead ++ ['\x27'])
    ('\x27' :: tail)
  simpa only [List.append_assoc, List.singleton_append] using hother

/-- Which faults a text has does not depend on references that resolve between two quotes. -/
theorem contentText_between {body : List Char} {g : List Glyph}
    (hresolved : glyphsFrom 0 body = .ok g) (offset : Nat) (lead tail : List Char) :
    (contentText offset (lead ++ '\x27' :: (body ++ '\x27' :: tail))).map (fun _ => ()) =
      (glyphsFrom offset lead).bind fun _ =>
        (glyphsFrom (offset + lead.length + 1 + body.length + 1) tail).map fun _ => () := by
  have hanywhere {offset : Nat} : glyphsFrom offset body = .ok g :=
    glyphsFrom_eq_ok_iff.mpr (glyphsFrom_eq_ok_iff.mp hresolved)
  rw [contentText, glyphsFrom_append_quote, glyphsFrom_append_quote, hanywhere]
  cases glyphsFrom offset lead with
  | error f => rfl
  | ok front => cases glyphsFrom (offset + lead.length + 1 + body.length + 1) tail <;> rfl

theorem takenAlike_text {lead body body' : List Char} (hnoBracket : '<' ∉ lead)
    (hholds : Place.text.Holds body) (hholds' : Place.text.Holds body')
    (hlength : body.length = body'.length) (depth offset : Nat) (post : List Char) :
    TakenAlike (tokensFrom (.content depth) offset (lead ++ '\x27' :: (body ++ '\x27' :: post)))
      (tokensFrom (.content depth) offset (lead ++ '\x27' :: (body' ++ '\x27' :: post))) := by
  obtain ⟨hallowed, hplain, hnoEnd, g, hresolved⟩ := hholds
  obtain ⟨hallowed', hplain', hnoEnd', g', hresolved'⟩ := hholds'
  -- The stretch of text goes on after the second quote.
  obtain ⟨tail, r, rfl, hfree, hnext⟩ := stretch_split post
  have hstretch (body : List Char) : lead ++ '\x27' :: (body ++ '\x27' :: (tail ++ r)) =
      lead ++ '\x27' :: (body ++ '\x27' :: tail) ++ r := by simp
  have hbracket (body : List Char) (hplain : '<' ∉ body) :
      '<' ∉ lead ++ '\x27' :: (body ++ '\x27' :: tail) := by simp [hnoBracket, hplain, hfree]
  have hfilled (body : List Char) : lead ++ '\x27' :: (body ++ '\x27' :: tail) ≠ [] := by simp
  have hends (body : List Char) (hnoEnd : holdsRun sectionEnd body = false) :
      holdsRun sectionEnd (lead ++ '\x27' :: (body ++ '\x27' :: tail)) =
        (holdsRun sectionEnd lead || holdsRun sectionEnd tail) := by
    have hapart : '\x27' ∉ sectionEnd := by decide
    have hsome : sectionEnd ≠ [] := by decide
    rw [holdsRun_append_cons hapart hsome, holdsRun_append_cons hapart hsome, hnoEnd, Bool.false_or]
  have hsize : (lead ++ '\x27' :: (body ++ '\x27' :: tail)).length =
      (lead ++ '\x27' :: (body' ++ '\x27' :: tail)).length := by simp [hlength]
  rw [hstretch, hstretch, tokensFrom_stretch (hfilled body) (hbracket body hplain) hnext,
    tokensFrom_stretch (hfilled body') (hbracket body' hplain') hnext, hsize, hends body hnoEnd,
    hends body' hnoEnd', allowedRun_between hallowed hallowed' hlength]
  cases allowedRun (fun _ => false) offset (lead ++ '\x27' :: (body' ++ '\x27' :: tail)) with
  | error f => exact takenAlike_refl _
  | ok n =>
      simp only
      split
      · exact takenAlike_refl _
      · refine (takenAlike_refl _).text (hfilled body) (hfilled body') ?_
        rw [contentText_between hresolved, contentText_between hresolved', hlength]

/-! ### A section -/

theorem tokensFrom_section (depth offset : Nat) (t : List Char) :
    tokensFrom (.content depth) offset ("<![CDATA[".toList ++ t) =
      match closedRun "]]>" (offset + 9) t with
      | .error f => [.fault f]
      | .ok n =>
        .verbatim (t.take (n - 3)) offset ::
          tokensFrom (.content depth) (offset + 9 + n) (t.drop n) := by
  have hfront : ('!' :: ("[CDATA[".toList ++ t)).drop 8 = t := rfl
  change tokensFrom (.content depth) offset ('<' :: '!' :: ("[CDATA[".toList ++ t)) = _
  rw [tokensFrom, step_section, characterSection, hfront]
  cases closedRun "]]>" (offset + 9) t with
  | error f => rfl
  | ok n =>
      have hrest : ('!' :: ("[CDATA[".toList ++ t)).drop (8 + n) = t.drop n := by
        rw [← List.drop_drop, hfront]
      have hplace : offset + 1 + (8 + n) = offset + 9 + n := by omega
      simp only [bind, Except.bind, hrest, hplace, List.singleton_append]

/-- How far a section goes on after two quotes in it does not depend on what stands between. -/
theorem closedRun_between {lead body : List Char} (hnoEnd : holdsRun sectionEnd lead = false)
    (hholds : Place.verbatim.Holds body) (offset : Nat) (post : List Char) :
    closedRun "]]>" offset (lead ++ '\x27' :: (body ++ '\x27' :: post)) =
      (allowedRun (fun _ => false) offset (lead ++ '\x27' :: (body ++ '\x27' :: []))).bind fun _ =>
        (closedRun "]]>" (offset + (lead.length + body.length + 2)) post).map
          (· + (lead.length + body.length + 2)) := by
  have hapart : '\x27' ∉ sectionEnd := by decide
  have hsome : sectionEnd ≠ [] := by decide
  have hfront : holdsRun sectionEnd (lead ++ '\x27' :: body) = false := by
    rw [holdsRun_append_cons hapart hsome, hnoEnd, hholds.2]
    rfl
  have hsplit (post : List Char) : lead ++ '\x27' :: (body ++ '\x27' :: post) =
      lead ++ '\x27' :: body ++ ['\x27'] ++ post := by simp
  have hsize : (lead ++ '\x27' :: body ++ ['\x27']).length = lead.length + body.length + 2 := by
    simp
    omega
  rw [hsplit post, hsplit [], List.append_nil, ← hsize]
  exact closedRun_append (goes_of_holdsRun hapart hsome hfront post) offset

theorem takenAlike_verbatim {lead body body' : List Char}
    (hnoEnd : holdsRun sectionEnd lead = false) (hholds : Place.verbatim.Holds body)
    (hholds' : Place.verbatim.Holds body') (hlength : body.length = body'.length)
    (depth offset : Nat) (post : List Char) :
    TakenAlike
      (tokensFrom (.content depth) offset
        ("<![CDATA[".toList ++ (lead ++ '\x27' :: (body ++ '\x27' :: post))))
      (tokensFrom (.content depth) offset
        ("<![CDATA[".toList ++ (lead ++ '\x27' :: (body' ++ '\x27' :: post)))) := by
  rw [tokensFrom_section, tokensFrom_section, closedRun_between hnoEnd hholds,
    closedRun_between hnoEnd hholds', allowedRun_between hholds.1 hholds'.1 hlength, hlength]
  cases allowedRun (fun _ => false) (offset + 9) (lead ++ '\x27' :: (body' ++ '\x27' :: [])) with
  | error f => exact takenAlike_refl _
  | ok m =>
      cases closedRun "]]>" (offset + 9 + (lead.length + body'.length + 2)) post with
      | error f => exact takenAlike_refl _
      | ok n =>
          have hrest {body : List Char} (hlength : body.length = body'.length) :
              (lead ++ '\x27' :: (body ++ '\x27' :: post)).drop
                (n + (lead.length + body'.length + 2)) = post.drop n := by
            have hfront : (lead ++ '\x27' :: body ++ ['\x27']).length =
                lead.length + body'.length + 2 := by
              simp [hlength]
              omega
            have hsplit : lead ++ '\x27' :: (body ++ '\x27' :: post) =
                lead ++ '\x27' :: body ++ ['\x27'] ++ post := by simp
            rw [hsplit, Nat.add_comm, ← List.drop_drop, ← hfront, List.drop_left]
          simp only [Except.bind, Except.map, hrest hlength, hrest rfl]
          exact (takenAlike_refl _).verbatim _ _ offset

/-! ### Other documents -/

theorem takenAlike_other {place : Place} {pre body body' post : List Char}
    (hleads : LeadsTo pre ('\x27' :: (body ++ '\x27' :: post)) place) (hholds : place.Holds body)
    (hholds' : place.Holds body') (hlength : body.length = body'.length) :
    TakenAlike (tokens (pre ++ '\x27' :: (body ++ '\x27' :: post)))
      (tokens (pre ++ '\x27' :: (body' ++ '\x27' :: post))) := by
  cases hleads with
  | unread hunread =>
      rw [hunread _ ('\x27' :: (body' ++ '\x27' :: post))]
      exact takenAlike_refl _
  | text hsplit hreached hnoBracket =>
      subst hsplit
      obtain ⟨found, hsame⟩ := hreached.tokens_of_content
      rw [hsame, hsame]
      exact (takenAlike_text hnoBracket hholds hholds' hlength _ _ post).append found
  | verbatim hsplit hreached hnoEnd =>
      subst hsplit
      obtain ⟨found, hsame⟩ := hreached.tokens_of_content
      rw [hsame, hsame, List.append_assoc, List.append_assoc]
      exact (takenAlike_verbatim hnoEnd hholds hholds' hlength _ _ post).append found

end DeadlockCapture.Xml
