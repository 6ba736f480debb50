import Stencil.Proofs.Print

/-! Parsing inverts printing. The tokens of a printed tree can be written one after the other, so
scanning gives them back; and a draft that is fed the tokens of a tree grows by just this tree. -/

namespace Stencil

open Markup (Block Span Token)
open Text (isBlank trim trimStart trimEnd hasPart isWord Solid)

namespace Node

theorem Sayable.append {w cs : List Char} (hw : Solid w) (h : Sayable cs) :
    Sayable (w ++ ' ' :: cs) := by
  obtain ⟨⟨ht, hu⟩, hn⟩ := h
  have he : trimEnd cs = cs := by
    have := Text.trimStart_of_trim ht
    rwa [trim, this] at ht
  have hd : (w ++ ' ' :: cs).reverse.dropWhile isBlank = (w ++ ' ' :: cs).reverse := by
    have hr : cs.reverse.dropWhile isBlank = cs.reverse := by
      rw [trimEnd, List.reverse_eq_iff] at he
      exact he
    rw [List.reverse_append, List.reverse_cons, List.append_assoc, List.dropWhile_append, hr]
    simp [hn]
  have hc (w : List Char) (hp : '%' ∉ w) : hasPart ['%', '\x7d'] (w ++ ' ' :: cs) = false := by
    induction w with
    | nil =>
      simp only [Block.Kind.closer, hasPart, Option.isSome_eq_false_iff, Option.isNone_iff_eq_none]
        at hu ⊢
      simp [Text.cutAt?_cons, hu]
    | cons c w ih =>
      have hp' : c ≠ '%' := fun hc => hp (by simp [hc])
      have := ih fun hm => hp (List.mem_cons_of_mem _ hm)
      simp only [hasPart, Option.isSome_eq_false_iff, Option.isNone_iff_eq_none] at this ⊢
      rw [List.cons_append, Text.cutAt?_cons, this]
      simp [hp']
  refine ⟨⟨?_, hc w hw.not_mem⟩, by simp⟩
  rw [trim, Text.trimStart_append hw, trimEnd, hd, List.reverse_reverse]

theorem written_cons {body : List Char} (h : Block.Encloses .tag body)
    (hc : body ≠ "comment".toList) {ts : List Token} (hts : Token.Written ts) :
    Token.Written (written body :: ts) :=
  ⟨⟨rfl, h, hc⟩, fun ht => by simp [written, Token.isText] at ht, hts⟩

theorem written_sayable {w cs : List Char} (hw : Solid w) (h : Sayable cs) {ts : List Token}
    (hts : Token.Written ts) : Token.Written (written (w ++ ' ' :: cs) :: ts) := by
  refine written_cons (h.append hw).toEncloses (fun he => ?_) hts
  have hm : ' ' ∈ "comment".toList := he ▸ by simp
  exact absurd hm (by decide)

theorem written_word {word : String}
    (h : word ∈ ["else", "endif", "endunless", "endfor", "endcase"]) {ts : List Token}
    (hts : Token.Written ts) : Token.Written (written word.toList :: ts) := by
  have hw : ∀ word ∈ ["else", "endif", "endunless", "endfor", "endcase"],
      trim word.toList = word.toList ∧ hasPart Block.Kind.tag.closer word.toList = false ∧
        word.toList ≠ "comment".toList := by decide
  obtain ⟨ht, hu, hc⟩ := hw word h
  exact written_cons ⟨ht, hu⟩ hc hts

section

variable {ts : List Token}

theorem head?_tokens {n : Node} (h : n.Printable) (hn : n.isText = false) :
    (n.tokens ++ ts).head?.any Token.isText = false := by
  cases n with
  | text s span => simp [isText] at hn
  | choice negated arms otherwise span =>
    cases arms with
    | nil => exact absurd rfl h.1
    | cons a as => cases a; rfl
  | _ => rfl

theorem head?_tokensArms {first next : String} {as : List Arm}
    (ht : ts.head?.any Token.isText = false) :
    (tokensArms first next as ++ ts).head?.any Token.isText = false := by
  cases as with
  | nil => exact ht
  | cons a as => cases a; rfl

theorem head?_tokensElse {o : Option (List Node)} (ht : ts.head?.any Token.isText = false) :
    (tokensElse o ++ ts).head?.any Token.isText = false := by
  cases o with
  | none => exact ht
  | some body => rfl

theorem head?_tokensAll {ns : List Node} (h : PrintableAll ns) (hn : ns.head?.any isText = false)
    (ht : ts.head?.any Token.isText = false) :
    (tokensAll ns ++ ts).head?.any Token.isText = false := by
  cases ns with
  | nil => exact ht
  | cons n ns =>
    rw [tokensAll, List.append_assoc]
    exact head?_tokens h.1 (by simpa using hn)

end

mutual

theorem written_tokens {n : Node} (h : n.Printable) {ts : List Token} (hts : Token.Written ts)
    (ht : n.isText = true → ts.head?.any Token.isText = false) :
    Token.Written (n.tokens ++ ts) := by
  cases n with
  | text s span => exact ⟨h, fun _ => ht rfl, hts⟩
  | output e span => exact ⟨h, fun hn => by simp [Token.isText] at hn, hts⟩
  | rawTag body raw span =>
    obtain ⟨he, hr, -, hc⟩ := h
    exact ⟨⟨hr, he, hc⟩, fun hn => by simp [Token.isText] at hn, hts⟩
  | assign target value span =>
    obtain ⟨hw, hv⟩ := h
    exact written_sayable (by decide)
      ((hv.append (by decide)).append (Text.solid_of_isWord hw)) hts
  | inclusion args span => exact written_sayable (by decide) h hts
  | choice negated arms otherwise span =>
    obtain ⟨-, ha, ho⟩ := h
    have hc : Token.Written (written (if negated then "endunless" else "endif").toList :: ts) := by
      cases negated <;> exact written_word (by decide) hts
    have hf : Solid (if negated then "unless" else "if").toList := by
      cases negated <;> decide
    rw [tokens, List.append_assoc, List.append_assoc]
    exact written_tokensArms hf (by decide) ha
      (written_tokensElse ho hc rfl) (head?_tokensElse rfl)
  | loop target items body otherwise span =>
    obtain ⟨hw, hi, hb, ho⟩ := h
    have hc : Token.Written (written "endfor".toList :: ts) := written_word (by decide) hts
    rw [tokens, List.append_assoc, List.append_assoc, List.cons_append]
    exact written_sayable (by decide)
      ((hi.append (by decide)).append (Text.solid_of_isWord hw))
      (written_tokensAll hb (written_tokensElse ho hc rfl) (head?_tokensElse rfl))
  | select subject opening lead arms otherwise span =>
    obtain ⟨hs, hl, ha, ho⟩ := h
    have hc : Token.Written (written "endcase".toList :: ts) := written_word (by decide) hts
    have hw : Solid "when".toList := by decide
    rw [tokens, List.append_assoc, List.append_assoc, List.append_assoc, List.cons_append]
    exact written_sayable (by decide) hs
      (written_tokensAll hl
        (written_tokensArms hw hw ha (written_tokensElse ho hc rfl) (head?_tokensElse rfl))
        (head?_tokensArms (head?_tokensElse rfl)))

theorem written_tokensAll {ns : List Node} (h : PrintableAll ns) {ts : List Token}
    (hts : Token.Written ts) (ht : ts.head?.any Token.isText = false) :
    Token.Written (tokensAll ns ++ ts) := by
  cases ns with
  | nil => exact hts
  | cons n ns =>
    obtain ⟨hn, hs, hns⟩ := h
    rw [tokensAll, List.append_assoc]
    exact written_tokens hn (written_tokensAll hns hts ht) fun hx => head?_tokensAll hns (hs hx) ht

theorem written_tokensArms {first next : String} (hf : Solid first.toList) (hn : Solid next.toList)
    {as : List Arm} (h : PrintableArms as) {ts : List Token} (hts : Token.Written ts)
    (ht : ts.head?.any Token.isText = false) :
    Token.Written (tokensArms first next as ++ ts) := by
  cases as with
  | nil => exact hts
  | cons a as =>
    obtain ⟨head, body⟩ := a
    obtain ⟨hh, hb, has⟩ := h
    rw [tokensArms, List.append_assoc, List.cons_append]
    exact written_sayable hf hh
      (written_tokensAll hb (written_tokensArms hn hn has hts ht) (head?_tokensArms ht))

theorem written_tokensElse {o : Option (List Node)} (h : PrintableElse o) {ts : List Token}
    (hts : Token.Written ts) (ht : ts.head?.any Token.isText = false) :
    Token.Written (tokensElse o ++ ts) := by
  cases o with
  | none => exact hts
  | some body => exact written_word (by decide) (written_tokensAll h hts ht)
termination_by structural o

end

end Node

namespace Draft

open Node (written tokensAll tokensArms tokensElse bareAll bareArms bareElse depthAll Sayable)

def feed (d : Draft) (ts : List Token) : Draft := ts.foldl (fun d t => d.step (t, .none)) d

theorem feed_append (d : Draft) (as bs : List Token) : d.feed (as ++ bs) = (d.feed as).feed bs :=
  List.foldl_append

theorem feed_cons (d : Draft) (t : Token) (ts : List Token) :
    d.feed (t :: ts) = (d.step (t, .none)).feed ts := rfl

/-- a draft that builds a tree without spans -/
structure Ready (d : Draft) : Prop where
  skipping : d.skipping = 0
  last : d.last = .none

def within (d : Draft) (part : Part) (body : List Node) : Draft :=
  { d with frames := ⟨part, body⟩ :: d.frames }

def pushAll (d : Draft) (ns : List Node) : Draft := ns.foldl push d

theorem pushAll_within (d : Draft) (part : Part) (body ns : List Node) :
    (d.within part body).pushAll ns = d.within part (ns.reverse ++ body) := by
  induction ns generalizing body with
  | nil => rfl
  | cons n ns ih => simp [pushAll, within, push] at ih ⊢; exact ih _

variable {d : Draft}

theorem Ready.within (h : d.Ready) (part : Part) (body : List Node) : (d.within part body).Ready :=
  ⟨h.skipping, h.last⟩

theorem Ready.push (h : d.Ready) (n : Node) : (d.push n).Ready := by
  obtain ⟨root, frames, skipping, last⟩ := d
  cases frames <;> exact ⟨h.skipping, h.last⟩

theorem length_frames_push (d : Draft) (n : Node) : (d.push n).frames.length = d.frames.length := by
  obtain ⟨root, frames, skipping, last⟩ := d
  cases frames <;> rfl

theorem step_tag (h : d.Ready) {tag : Tag} {body raw : List Char} (ht : Tag.read body = tag) :
    d.step (.tag body raw, .none) = d.tag tag body raw .none := by
  obtain ⟨root, frames, skipping, last⟩ := d
  obtain ⟨rfl, rfl⟩ := h
  rw [← ht]
  rfl

theorem tag_of_plain (d : Draft) {tag : Tag} {body raw : List Char} {n : Node}
    (ht : tag = .raw ∧ n = .rawTag body raw .none ∨
      (∃ target value, tag = .assign target value ∧ n = .assign target value .none) ∨
      ∃ args, tag = .inclusion args ∧ n = .inclusion args .none) :
    d.tag tag body raw .none = d.push n := by
  obtain ⟨root, frames, skipping, last⟩ := d
  rcases ht with ⟨rfl, rfl⟩ | ⟨target, value, rfl, rfl⟩ | ⟨args, rfl, rfl⟩
  all_goals
    cases frames with
    | nil => rfl
    | cons f fs => obtain ⟨part, b⟩ := f; cases part <;> rfl

def opening? : Tag → Option Part
  | .ifOpen c => some (.branch .none false [] c)
  | .unlessOpen c => some (.branch .none true [] c)
  | .loopOpen target items => some (.loop .none target items)
  | .caseOpen subject => some (.lead .none subject)
  | _ => none

theorem tag_of_opening (hd : d.frames.length < maxNesting) {tag : Tag} {part : Part}
    (ht : opening? tag = some part) (body raw : List Char) :
    d.tag tag body raw .none = d.within part [] := by
  have hn : ¬ maxNesting ≤ d.frames.length := Nat.not_le.2 hd
  have hp : d.plainTag tag body raw .none = d.within part [] := by
    cases tag <;> cases ht <;> simp only [plainTag, openTag, hn, if_false] <;> rfl
  rw [← hp]
  obtain ⟨root, frames, skipping, last⟩ := d
  cases frames with
  | nil => rfl
  | cons f fs => obtain ⟨p, b⟩ := f; cases p <;> cases tag <;> cases ht <;> rfl

/-- Feeding the tokens of nodes that stand in one body adds the nodes. -/
def Builds (ns : List Node) : Prop :=
  ∀ d : Draft, d.Ready → d.frames.length + depthAll ns ≤ maxNesting →
    d.feed (tokensAll ns) = d.pushAll (bareAll ns)

theorem Builds.feed_within {ns : List Node} (hb : Builds ns) (h : d.Ready)
    (hd : d.frames.length + 1 + depthAll ns ≤ maxNesting) (part : Part) :
    (d.within part []).feed (tokensAll ns) = d.within part (bareAll ns).reverse := by
  rw [hb _ (h.within part []) hd, pushAll_within, List.append_nil]

theorem tag_of_turn? {part part' : Part} {body : List Node} {tag : Tag}
    (ht : Frame.turn? ⟨part, body⟩ tag .none = some part') (b raw : List Char) :
    (d.within part body).tag tag b raw .none = d.within part' [] := by
  simp only [within, Draft.tag, ht]

theorem tag_of_endsAt (h : d.Ready) {part : Part} {body : List Node} {tag : Tag}
    (ht : Frame.turn? ⟨part, body⟩ tag .none = none) (he : Frame.endsAt ⟨part, body⟩ tag = true)
    (b raw : List Char) :
    (d.within part body).tag tag b raw .none = d.push (Frame.finish ⟨part, body⟩ .none) := by
  obtain ⟨root, frames, skipping, last⟩ := d
  obtain ⟨rfl, rfl⟩ := h
  simp only [within, Draft.tag, ht, he, if_true, leave]

theorem feed_end (h : d.Ready) {otherwise : Option (List Node)}
    (hd : d.frames.length + 1 + Node.depthElse otherwise ≤ maxNesting)
    (ho : ∀ ns ∈ otherwise, Builds ns) {part part' : Part} {body : List Node} {tag : Tag}
    {word : List Char} (hw : Tag.read word = tag)
    (ht : Frame.turn? ⟨part, body⟩ .otherwise .none = some part')
    (he : ∀ p ∈ [part, part'], ∀ b, Frame.turn? ⟨p, b⟩ tag .none = none ∧
      Frame.endsAt ⟨p, b⟩ tag = true) :
    (d.within part body).feed (tokensElse otherwise ++ [written word]) =
      d.push (match otherwise with
        | none => Frame.finish ⟨part, body⟩ .none
        | some ns => Frame.finish ⟨part', (bareAll ns).reverse⟩ .none) := by
  cases otherwise with
  | none =>
    obtain ⟨hn, hc⟩ := he part (by simp) body
    rw [tokensElse, List.nil_append, feed_cons, written, step_tag (h.within _ _) hw,
      tag_of_endsAt h hn hc]
    rfl
  | some ns =>
    obtain ⟨hn, hc⟩ := he part' (by simp) (bareAll ns).reverse
    rw [tokensElse, List.cons_append, feed_cons, written, step_tag (h.within _ _) Tag.read_else,
      tag_of_turn? ht, feed_append, (ho ns rfl).feed_within h hd, feed_cons, written,
      step_tag (h.within _ _) hw, tag_of_endsAt h hn hc]
    rfl

theorem feed_turn (h : d.Ready) {part part' : Part} {body : List Node} {tag : Tag} {w : String}
    {head : List Char} (hr : Tag.read (phrase w head) = tag)
    (ht : Frame.turn? ⟨part, body⟩ tag .none = some part') {ns : List Node} (hb : Builds ns)
    (hd : d.frames.length + 1 + depthAll ns ≤ maxNesting) (ts : List Token) :
    (d.within part body).feed (written (phrase w head) :: tokensAll ns ++ ts) =
      (d.within part' (bareAll ns).reverse).feed ts := by
  rw [List.cons_append, feed_cons, written, step_tag (h.within _ _) hr, tag_of_turn? ht,
    feed_append, hb.feed_within h hd]

section

variable {otherwise : Option (List Node)} {as : List Arm}

/-- The rest of a block behind one of its arms, where each further arm has a tag of the same word. -/
theorem feed_rest (part : List Arm → List Char → Part) (tag : List Char → Tag)
    (whole : List Arm → Node) (h : d.Ready)
    (hd : d.frames.length + 1 + Node.depthArms as ≤ maxNesting)
    (ha : ∀ head body, Arm.mk head body ∈ as → Sayable head ∧ Builds body) {word : String}
    {last : List Char} (hr : ∀ head, Sayable head → Tag.read (phrase word head) = tag head)
    (ht : ∀ done head body next, Frame.turn? ⟨part done head, body⟩ (tag next) .none =
      some (part (.mk head body.reverse :: done) next))
    (he : ∀ done head body,
      (d.within (part done head) body).feed (tokensElse otherwise ++ [written last]) =
        d.push (whole (.mk head body.reverse :: done).reverse))
    (done : List Arm) (head : List Char) (body : List Node) :
    (d.within (part done head) body).feed
        (tokensArms word word as ++ (tokensElse otherwise ++ [written last])) =
      d.push (whole ((.mk head body.reverse :: done).reverse ++ bareArms as)) := by
  induction as generalizing done head body with
  | nil =>
    rw [tokensArms, List.nil_append, he]
    simp [bareArms]
  | cons a as ih =>
    obtain ⟨next, ns⟩ := a
    obtain ⟨hc, hb⟩ := ha next ns (by simp)
    simp only [Node.depthArms] at hd
    rw [tokensArms, List.append_assoc, feed_turn h (hr next hc) (ht ..) hb (by omega),
      ih (by omega) fun head body hm => ha head body (List.mem_cons_of_mem _ hm)]
    simp [bareArms]

theorem feed_elsifs (h : d.Ready) (hd : d.frames.length + 1 + Node.depthArms as ≤ maxNesting)
    (ha : ∀ head body, Arm.mk head body ∈ as → Sayable head ∧ Builds body)
    (hd' : d.frames.length + 1 + Node.depthElse otherwise ≤ maxNesting)
    (ho : ∀ ns ∈ otherwise, Builds ns) {word : String} (hw : word ∈ Tag.closers) (negated : Bool)
    (done : List Arm) (condition : List Char) (body : List Node) :
    (d.within (.branch .none negated done condition) body).feed
        (tokensArms "elsif" "elsif" as ++ (tokensElse otherwise ++ [written word.toList])) =
      d.push (.choice negated ((.mk condition body.reverse :: done).reverse ++ bareArms as)
        (bareElse otherwise) .none) := by
  refine feed_rest (.branch .none negated) .elsif (.choice negated · (bareElse otherwise) .none)
    h hd ha (fun head hc => ?_) (fun _ _ _ _ => rfl) (fun done head body => ?_) ..
  · exact Tag.read_elsif hc.ne_nil (Text.trimStart_of_trim hc.trimmed)
  · rw [feed_end h hd' ho (Tag.read_closer word hw) rfl (by simp [Frame.turn?, Frame.endsAt])]
    cases otherwise <;> simp [Frame.finish, bareElse] <;> rfl

theorem feed_whens (h : d.Ready) (hd : d.frames.length + 1 + Node.depthArms as ≤ maxNesting)
    (ha : ∀ head body, Arm.mk head body ∈ as → Sayable head ∧ Builds body)
    (hd' : d.frames.length + 1 + Node.depthElse otherwise ≤ maxNesting)
    (ho : ∀ ns ∈ otherwise, Builds ns) (subject : List Char) (lead : List Node)
    (done : List Arm) (values : List Char) (body : List Node) :
    (d.within (.arm .none subject lead .none done values) body).feed
        (tokensArms "when" "when" as ++ (tokensElse otherwise ++ [written "endcase".toList])) =
      d.push (.select subject .none lead ((.mk values body.reverse :: done).reverse ++ bareArms as)
        (bareElse otherwise) .none) := by
  refine feed_rest (.arm .none subject lead .none) .when
    (.select subject .none lead · (bareElse otherwise) .none)
    h hd ha (fun head hc => ?_) (fun _ _ _ _ => rfl) (fun done head body => ?_) ..
  · exact Tag.read_when hc.ne_nil (Text.trimStart_of_trim hc.trimmed)
  · rw [feed_end h hd' ho Tag.read_endcase rfl (by simp [Frame.turn?, Frame.endsAt])]
    cases otherwise <;> simp [Frame.finish, bareElse] <;> rfl

theorem feed_arms (h : d.Ready) (hd : d.frames.length + 1 + Node.depthArms as ≤ maxNesting)
    (ha : ∀ head body, Arm.mk head body ∈ as → Sayable head ∧ Builds body)
    (hd' : d.frames.length + 1 + Node.depthElse otherwise ≤ maxNesting)
    (ho : ∀ ns ∈ otherwise, Builds ns) (subject : List Char) (lead : List Node) :
    (d.within (.lead .none subject) lead.reverse).feed
        (tokensArms "when" "when" as ++ (tokensElse otherwise ++ [written "endcase".toList])) =
      d.push (.select subject .none lead (bareArms as) (bareElse otherwise) .none) := by
  cases as with
  | nil =>
    rw [tokensArms, List.nil_append, feed_end h hd' ho Tag.read_endcase rfl
      (by simp [Frame.turn?, Frame.endsAt])]
    cases otherwise with
    | none => simp [Frame.finish, bareArms, bareElse]
    | some body =>
      simp [Frame.finish, bareArms, bareElse]
      rfl
  | cons a as =>
    obtain ⟨head, ns⟩ := a
    obtain ⟨hc, hb⟩ := ha head ns (by simp)
    have ht := Text.trimStart_of_trim hc.trimmed
    simp only [Node.depthArms] at hd
    rw [tokensArms, List.append_assoc, feed_turn h (Tag.read_when hc.ne_nil ht) rfl hb (by omega),
      List.reverse_reverse,
      feed_whens h (by omega) (fun head body hm => ha head body (List.mem_cons_of_mem _ hm)) hd' ho]
    simp [bareArms]

theorem feed_opening (h : d.Ready) (hd : d.frames.length < maxNesting) {body : List Char}
    {part : Part} (ht : opening? (Tag.read body) = some part) (ts : List Token) :
    d.feed (written body :: ts) = (d.within part []).feed ts := by
  rw [feed_cons, written, step_tag h rfl, tag_of_opening hd ht]

theorem feed_choice (h : d.Ready) {negated : Bool} {span : Span}
    (hd : d.frames.length + (Node.choice negated as otherwise span).depth ≤ maxNesting)
    (hn : as ≠ []) (ha : ∀ head body, Arm.mk head body ∈ as → Sayable head ∧ Builds body)
    (ho : ∀ ns ∈ otherwise, Builds ns) :
    d.feed (Node.choice negated as otherwise span).tokens =
      d.push (Node.choice negated as otherwise span).bare := by
  cases as with
  | nil => exact absurd rfl hn
  | cons a as =>
    obtain ⟨head, body⟩ := a
    obtain ⟨hc, hb⟩ := ha head body (by simp)
    have hr head body hm := ha head body (List.mem_cons_of_mem _ hm)
    have ht := Text.trimStart_of_trim hc.trimmed
    have hop : opening? (Tag.read (phrase (if negated then "unless" else "if") head)) =
        some (.branch .none negated [] head) := by
      cases negated with
      | false => rw [if_neg (by simp), Tag.read_if hc.ne_nil ht]; rfl
      | true => rw [if_pos rfl, Tag.read_unless hc.ne_nil ht]; rfl
    have hcl : (if negated then "endunless" else "endif") ∈ Tag.closers := by
      cases negated <;> decide
    simp only [Node.depth, Node.depthArms] at hd
    rw [Node.tokens, tokensArms, List.append_assoc, List.append_assoc, List.cons_append,
      feed_opening h (by omega) hop, feed_append, hb.feed_within h (by omega),
      feed_elsifs h (by omega) hr (by omega) ho hcl]
    simp [Node.bare, bareArms]

theorem feed_loop (h : d.Ready) {target items : List Char} {body : List Node} {span : Span}
    (hd : d.frames.length + (Node.loop target items body otherwise span).depth ≤ maxNesting)
    (hw : isWord target = true) (hi : Sayable items) (hb : Builds body)
    (ho : ∀ ns ∈ otherwise, Builds ns) :
    d.feed (Node.loop target items body otherwise span).tokens =
      d.push (Node.loop target items body otherwise span).bare := by
  have ht := Text.trimStart_of_trim hi.trimmed
  have hop : opening? (Tag.read (phrase "for" (target ++ ' ' :: phrase "in" items))) =
      some (.loop .none target items) := by rw [Tag.read_for hi.ne_nil ht hw]; rfl
  simp only [Node.depth] at hd
  rw [Node.tokens, List.append_assoc, List.cons_append, feed_opening h (by omega) hop, feed_append,
    hb.feed_within h (by omega),
    feed_end h (by omega) ho (Tag.read_closer "endfor" (by decide)) rfl
      (by simp [Frame.turn?, Frame.endsAt])]
  cases otherwise <;> simp [Frame.finish, Node.bare, bareElse] <;> rfl

theorem feed_select (h : d.Ready) {subject : List Char} {lead : List Node} {opening span : Span}
    (hd : d.frames.length + (Node.select subject opening lead as otherwise span).depth ≤ maxNesting)
    (hs : Sayable subject) (hl : Builds lead)
    (ha : ∀ head body, Arm.mk head body ∈ as → Sayable head ∧ Builds body)
    (ho : ∀ ns ∈ otherwise, Builds ns) :
    d.feed (Node.select subject opening lead as otherwise span).tokens =
      d.push (Node.select subject opening lead as otherwise span).bare := by
  have ht := Text.trimStart_of_trim hs.trimmed
  have hop : opening? (Tag.read (phrase "case" subject)) = some (.lead .none subject) := by
    rw [Tag.read_case hs.ne_nil ht]; rfl
  simp only [Node.depth] at hd
  rw [Node.tokens, List.append_assoc, List.append_assoc, List.cons_append,
    feed_opening h (by omega) hop, feed_append, hl.feed_within h (by omega),
    feed_arms h (by omega) ha (by omega) ho]
  simp [Node.bare]

end

theorem feed_tag (h : d.Ready) {tag : Tag} {body raw : List Char} {n : Node}
    (hr : Tag.read body = tag)
    (hn : tag = .raw ∧ n = .rawTag body raw .none ∨
      (∃ target value, tag = .assign target value ∧ n = .assign target value .none) ∨
      ∃ args, tag = .inclusion args ∧ n = .inclusion args .none) :
    d.feed [.tag body raw] = d.push n := by
  rw [feed_cons, step_tag h hr, tag_of_plain d hn]
  rfl

open Node (PrintableAll PrintableArms PrintableElse)

mutual

/-- Feeding the tokens of a node adds the node, if it does not nest too deep. -/
theorem feed_tokens {n : Node} (hn : n.Printable) {d : Draft} (h : d.Ready)
    (hd : d.frames.length + n.depth ≤ maxNesting) : d.feed n.tokens = d.push n.bare := by
  cases n with
  | text s span =>
    obtain ⟨root, frames, skipping, last⟩ := d
    obtain ⟨rfl, rfl⟩ := h
    rfl
  | output e span =>
    obtain ⟨root, frames, skipping, last⟩ := d
    obtain ⟨rfl, rfl⟩ := h
    rfl
  | rawTag body raw span => exact feed_tag h hn.2.2.1 (.inl ⟨rfl, rfl⟩)
  | assign target value span =>
    obtain ⟨hw, hv⟩ := hn
    exact feed_tag h (Tag.read_assign hv.ne_nil hv.trimmed hw) (.inr (.inl ⟨_, _, rfl, rfl⟩))
  | inclusion args span =>
    exact feed_tag h (Tag.read_include hn.ne_nil (Text.trimStart_of_trim hn.trimmed))
      (.inr (.inr ⟨_, rfl, rfl⟩))
  -- the bodies of a block are fed with one more block open, whatever lies below
  | choice negated arms otherwise span =>
    obtain ⟨hne, ha, ho⟩ := hn
    exact feed_choice h hd hne (builds_arms ha) (builds_else ho)
  | loop target items body otherwise span =>
    obtain ⟨hw, hi, hb, ho⟩ := hn
    exact feed_loop h hd hw hi (builds_all hb) (builds_else ho)
  | select subject opening lead arms otherwise span =>
    obtain ⟨hs, hl, ha, ho⟩ := hn
    exact feed_select h hd hs (builds_all hl) (builds_arms ha) (builds_else ho)

theorem builds_all {ns : List Node} (hns : PrintableAll ns) : Builds ns := by
  cases ns with
  | nil => intro d h hd; rfl
  | cons n ns =>
    intro d h hd
    obtain ⟨hn, -, hr⟩ := hns
    simp only [depthAll] at hd
    rw [tokensAll, feed_append, feed_tokens hn h (by omega),
      builds_all hr _ (h.push _) (by rw [length_frames_push]; omega)]
    rfl

theorem builds_arms {as : List Arm} (has : PrintableArms as) :
    ∀ head body, Arm.mk head body ∈ as → Sayable head ∧ Builds body := by
  cases as with
  | nil => simp
  | cons a as =>
    obtain ⟨head, body⟩ := a
    obtain ⟨hh, hb, hr⟩ := has
    intro head' body' hm
    rcases List.mem_cons.1 hm with he | hm
    · cases he
      exact ⟨hh, builds_all hb⟩
    · exact builds_arms hr head' body' hm

theorem builds_else {o : Option (List Node)} (ho : PrintableElse o) : ∀ ns ∈ o, Builds ns := by
  cases o with
  | none => simp
  | some body =>
    rintro ns ⟨⟩
    exact builds_all ho
termination_by structural o

end

end Draft

open Node (PrintableAll PrintableArms PrintableElse depthAll)

end Stencil
