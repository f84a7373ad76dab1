import PayrollFormula.Proofs.Formula.Grammar
import PayrollFormula.Proofs.Formula.Trees

/-!
# Replacing variables by formulas

`Expr.replace` puts a formula in the place of each variable of a tree. Among the tokens of a phrase
the same is done by putting an operand in the place of each name (`Replaced`), and the two agree:
the phrase stays one of its category, and its tree is the tree with the variables replaced
(`Derives.replace`). That holds as long as no function is called by a replaced name.
-/

set_option autoImplicit false

namespace PayrollFormula

namespace Expr

mutual

/-- The formula with a formula in the place of each variable. -/
def replace (σ : String → Expr) : Expr → Expr
  | .literal x => .literal x
  | .variable name => σ name
  | .unary op a => .unary op (a.replace σ)
  | .binary op a b => .binary op (a.replace σ) (b.replace σ)
  | .choice c a b => .choice (c.replace σ) (a.replace σ) (b.replace σ)
  | .call name args => .call name (replaceAll σ args)

/-- Several formulas with a formula in the place of each variable. -/
def replaceAll (σ : String → Expr) : List Expr → List Expr
  | [] => []
  | a :: rest => a.replace σ :: replaceAll σ rest

end

/-- Whether a node is no call by a name with a property, in whatever letter case. -/
def Uncalled (P : String → Prop) : Expr → Prop
  | .call name _ => ∀ n, P n → upperCase n ≠ name
  | _ => True

/-! ## Formulas that are the same have the same height -/

/-- Lists of formulas that are the same one by one are equally high. -/
theorem greatestHeight_of_sameAll {as bs : List Expr} (h : sameAll as bs = true)
    (hparts : ∀ a ∈ as, ∀ b, a.same b = true → a.height = b.height) :
    greatestHeight as = greatestHeight bs := by
  induction as generalizing bs with
  | nil =>
    cases bs with
    | nil => rfl
    | cons b bs => simp [sameAll] at h
  | cons a as ih =>
    cases bs with
    | nil => simp [sameAll] at h
    | cons b bs =>
      simp only [sameAll, Bool.and_eq_true] at h
      rw [greatestHeight, greatestHeight, hparts a List.mem_cons_self b h.1,
        ih h.2 fun c hc => hparts c (List.mem_cons_of_mem a hc)]

/-- Formulas that are the same are equally high. -/
theorem height_eq_of_same {a b : Expr} (h : a.same b = true) : a.height = b.height := by
  induction a using Expr.induction generalizing b with
  | literal | named => cases b <;> simp_all [same, height]
  | unary op a ih =>
    cases b with
    | unary op' b =>
      simp only [same, Bool.and_eq_true] at h
      rw [height, height, ih h.2]
    | _ => simp [same] at h
  | binary op a a' ih ih' =>
    cases b with
    | binary op' b b' =>
      simp only [same, Bool.and_eq_true] at h
      rw [height, height, ih h.1.2, ih' h.2]
    | _ => simp [same] at h
  | choice c a a' ihc ih ih' =>
    cases b with
    | choice d b b' =>
      simp only [same, Bool.and_eq_true] at h
      rw [height, height, ihc h.1.1, ih h.1.2, ih' h.2]
    | _ => simp [same] at h
  | call name args ih =>
    cases b with
    | call name' brgs =>
      simp only [same, Bool.and_eq_true] at h
      rw [height, height, greatestHeight_of_sameAll h.2 fun a ha b hab => ih a ha hab]
    | _ => simp [same] at h

/-- The same replacements make the same formulas. -/
theorem replace_same {σ τ : String → Expr} (h : ∀ n, (σ n).same (τ n) = true) (e : Expr) :
    (e.replace σ).same (e.replace τ) = true := by
  induction e using Expr.induction with
  | literal x => simp [replace, same]
  | named name => exact h name
  | unary op a iha => simp [replace, same, iha]
  | binary op a b iha ihb => simp [replace, same, iha, ihb]
  | choice c a b ihc iha ihb => simp [replace, same, ihc, iha, ihb]
  | call name args ih =>
    have hargs : sameAll (replaceAll σ args) (replaceAll τ args) = true := by
      clear name
      induction args with
      | nil => rfl
      | cons a args ihargs =>
        rw [replaceAll, replaceAll, sameAll, ih a List.mem_cons_self, Bool.true_and]
        exact ihargs fun b hb => ih b (List.mem_cons_of_mem a hb)
    simp [replace, same, hargs]

end Expr

namespace Grammar

/-! ## Tokens in the place of names -/

/-- What becomes of tokens when names are replaced by operands: a name that stands for another
formula than its variable gives way to the tokens of that formula, and every other token stays, if
maybe at another offset. -/
inductive Replaced (σ : String → Expr) : List Token → List Token → Prop where
  | nil : Replaced σ [] []
  | kept {t u : Token} {ts us : List Token} :
      u.kind = t.kind → u.chars = t.chars → (t.kind = .name → σ t.text = .variable t.text) →
      Replaced σ ts us → Replaced σ (t :: ts) (u :: us)
  | operand {t : Token} {vs ts us : List Token} :
      t.kind = .name → σ t.text ≠ .variable t.text → Derives .atom vs (σ t.text) →
      Replaced σ ts us → Replaced σ (t :: ts) (vs ++ us)

section Replaced

variable {σ : String → Expr} {t : Token} {ts us vs : List Token}

/-- Of no tokens, no tokens become. -/
theorem Replaced.eq_nil (h : Replaced σ [] vs) : vs = [] := by
  cases h
  rfl

/-- Of tokens one after another, what becomes of each part comes one after another. -/
theorem Replaced.append_inv (h : Replaced σ (ts ++ us) vs) :
    ∃ ts' us', vs = ts' ++ us' ∧ Replaced σ ts ts' ∧ Replaced σ us us' := by
  induction ts generalizing vs with
  | nil => exact ⟨[], vs, rfl, .nil, h⟩
  | cons t ts ih =>
    cases h with
    | @kept _ u _ rest hkind hchars hname hrest =>
      obtain ⟨ts', us', rfl, hts, hus⟩ := ih hrest
      exact ⟨u :: ts', us', rfl, .kept hkind hchars hname hts, hus⟩
    | @operand _ ws _ rest hkind hne hws hrest =>
      obtain ⟨ts', us', rfl, hts, hus⟩ := ih hrest
      exact ⟨ws ++ ts', us', (List.append_assoc _ _ _).symm, .operand hkind hne hws hts, hus⟩

/-- A token stays if it is no name, or a name that stands for its variable. -/
theorem Replaced.cons_inv (h : Replaced σ (t :: ts) vs)
    (ht : t.kind = .name → σ t.text = .variable t.text) :
    ∃ u us, vs = u :: us ∧ u.kind = t.kind ∧ u.chars = t.chars ∧ Replaced σ ts us := by
  cases h with
  | @kept _ u _ rest hkind hchars _ hrest => exact ⟨u, rest, rfl, hkind, hchars, hrest⟩
  | operand hkind hne => exact absurd (ht hkind) hne

/-- A token that is no name stays, at the front of what becomes of the others. -/
theorem Replaced.cons_inv_of_kind {k : TokenKind} (h : Replaced σ (t :: ts) vs) (ht : t.kind = k)
    (hk : k ≠ .name) : ∃ u us, vs = u :: us ∧ u.kind = k ∧ Replaced σ ts us := by
  obtain ⟨u, us, rfl, hkind, -, hus⟩ := h.cons_inv fun hname => absurd (ht.symm.trans hname) hk
  exact ⟨u, us, rfl, hkind.trans ht, hus⟩

/-- The name of a called function stays, with the parenthesis after it. -/
theorem Replaced.call_inv {f l : Token} {args : List Expr} (h : Replaced σ (f :: l :: ts) vs)
    (hf : f.kind = .name) (hl : l.kind = .leftParen)
    (hcalled : (Expr.callNamed f.text args).Uncalled fun n => σ n ≠ .variable n) :
    ∃ g m us, vs = g :: m :: us ∧ g.kind = .name ∧ g.text = f.text ∧ m.kind = .leftParen ∧
      Replaced σ ts us := by
  have hstays : f.kind = .name → σ f.text = .variable f.text := by
    intro _
    by_contra hne
    exact hcalled f.text hne rfl
  obtain ⟨g, rest, rfl, hkind, hchars, hrest⟩ := h.cons_inv hstays
  obtain ⟨m, us, rfl, hm, hus⟩ := hrest.cons_inv_of_kind hl (by decide)
  exact ⟨g, m, us, rfl, hkind.trans hf, by rw [Token.text, Token.text, hchars], hm, hus⟩

end Replaced

/-- A phrase stays one when names in it are replaced by operands, and its tree is the tree with the
variables replaced. -/
theorem Derives.replace {σ : String → Expr} {c : Category} {ts : List Token} {e : Expr}
    (h : Derives c ts e) {vs : List Token} (hvs : Replaced σ ts vs)
    (hcalled : e.Everywhere (Expr.Uncalled fun n => σ n ≠ .variable n)) :
    Derives c vs (e.replace σ) := by
  revert vs
  -- The tokens of a phrase are split as the phrase is, and so are those that take their place.
  induction h using Derives.rec (motive_2 := fun ts args _ =>
    (∀ a ∈ args, a.Everywhere (Expr.Uncalled fun n => σ n ≠ .variable n)) →
      ∀ vs, Replaced σ ts vs → Arguments vs (Expr.replaceAll σ args)) with
  | tighter hd _ ih =>
    intro vs hvs
    exact .tighter hd (ih hcalled hvs)
  | choice _ hq _ hm _ ihc iha ihb =>
    intro vs hvs
    obtain ⟨-, hc, ha, hb⟩ := (Expr.everywhere_choice _ _ _ _).mp hcalled
    obtain ⟨cs, rest, rfl, hcs, hrest⟩ := hvs.append_inv
    obtain ⟨q', rest, rfl, hq', hrest⟩ := hrest.cons_inv_of_kind hq (by decide)
    obtain ⟨as, rest, rfl, has, hrest⟩ := hrest.append_inv
    obtain ⟨m', bs, rfl, hm', hbs⟩ := hrest.cons_inv_of_kind hm (by decide)
    exact .choice (ihc hc hcs) hq' (iha ha has) hm' (ihb hb hbs)
  | binary hj _ _ iha ihb =>
    intro vs hvs
    obtain ⟨-, ha, hb⟩ := (Expr.everywhere_binary _ _ _ _).mp hcalled
    obtain ⟨as, rest, rfl, has, hrest⟩ := hvs.append_inv
    obtain ⟨t', bs, rfl, ht', hbs⟩ := hrest.cons_inv_of_kind rfl hj.kind_ne_name
    exact .binary (ht' ▸ hj) (iha ha has) (ihb hb hbs)
  | not hk _ ih =>
    intro vs hvs
    obtain ⟨t', rest, rfl, ht', hrest⟩ := hvs.cons_inv_of_kind hk (by decide)
    exact .not ht' (ih ((Expr.everywhere_unary _ _ _).mp hcalled).2 hrest)
  | neg hk _ ih =>
    intro vs hvs
    obtain ⟨t', rest, rfl, ht', hrest⟩ := hvs.cons_inv_of_kind hk (by decide)
    exact .neg ht' (ih ((Expr.everywhere_unary _ _ _).mp hcalled).2 hrest)
  | number hk hx =>
    intro vs hvs
    obtain ⟨t', rest, rfl, ht', hchars, hrest⟩ := hvs.cons_inv fun hname => by simp_all
    cases hrest.eq_nil
    refine .number (ht'.trans hk) ?_
    rw [Token.number?, hchars]
    exact hx
  | @named t hk =>
    intro vs hvs
    cases hvs with
    | @kept _ u _ _ hkind hchars hname hrest =>
      cases hrest.eq_nil
      have htext : u.text = t.text := by rw [Token.text, Token.text, hchars]
      rw [Expr.replace, hname hk, ← htext]
      exact .named (hkind.trans hk)
    | operand _ _ hws hrest =>
      cases hrest.eq_nil
      rw [List.append_nil, Expr.replace]
      exact hws
  | group hl _ hr ih =>
    intro vs hvs
    obtain ⟨l', rest, rfl, hl', hrest⟩ := hvs.cons_inv_of_kind hl (by decide)
    obtain ⟨inner, rest, rfl, hinner, hrest⟩ := hrest.append_inv
    obtain ⟨r', rest, rfl, hr', hrest⟩ := hrest.cons_inv_of_kind hr (by decide)
    cases hrest.eq_nil
    exact .group hl' (ih hcalled hinner) hr'
  | callNone hf hl hr =>
    intro vs hvs
    have hnode := ((Expr.everywhere_call _ _ _).mp hcalled).1
    obtain ⟨g, l', rest, rfl, hg, htext, hl', hrest⟩ := hvs.call_inv hf hl hnode
    obtain ⟨r', rest, rfl, hr', hrest⟩ := hrest.cons_inv_of_kind hr (by decide)
    cases hrest.eq_nil
    rw [← htext]
    exact .callNone hg hl' hr'
  | callSome hf hl _ hr ih =>
    intro vs hvs
    obtain ⟨hnode, hargs⟩ := (Expr.everywhere_call _ _ _).mp hcalled
    obtain ⟨g, l', rest, rfl, hg, htext, hl', hrest⟩ := hvs.call_inv hf hl hnode
    obtain ⟨inner, rest, rfl, hinner, hrest⟩ := hrest.append_inv
    obtain ⟨r', rest, rfl, hr', hrest⟩ := hrest.cons_inv_of_kind hr (by decide)
    cases hrest.eq_nil
    rw [← htext]
    exact .callSome hg hl' (ih hargs inner hinner) hr'
  | last _ ih hargs vs hvs => exact .last (ih (hargs _ List.mem_cons_self) hvs)
  | more _ hk _ iha ih hargs vs hvs =>
    obtain ⟨as, rest, rfl, has, hrest⟩ := hvs.append_inv
    obtain ⟨t', us, rfl, ht', hus⟩ := hrest.cons_inv_of_kind hk (by decide)
    have ha := iha (hargs _ List.mem_cons_self) has
    exact .more ha ht' (ih (fun b hb => hargs b (List.mem_cons_of_mem _ hb)) us hus)

end Grammar

end PayrollFormula
