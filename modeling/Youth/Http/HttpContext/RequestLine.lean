/-
  Youth.Http.HttpContext.RequestLine

  The request lines that `processRequestLine` accepts.

  The code looks for two spaces and compares the tail with `HTTP/1.` from its end.  What
  it accepts is the language of a method, a target without a space and a version, with
  one space between them (`RequestLine`); and since the method has no space either, the
  three parts of an accepted line are unique (`processRequestLine_iff`).
-/

import Youth.Http.HttpContext.Basic

namespace Youth.Http

open Youth.Lib

/-- The methods, as they are written. -/
inductive IsMethod : Bytes → Method → Prop
  | get : IsMethod (ascii ['G', 'E', 'T']) .get
  | post : IsMethod (ascii ['P', 'O', 'S', 'T']) .post
  | head : IsMethod (ascii ['H', 'E', 'A', 'D']) .head
  | put : IsMethod (ascii ['P', 'U', 'T']) .put
  | delete : IsMethod (ascii ['D', 'E', 'L', 'E', 'T', 'E']) .delete

/-- The last digit of a version. -/
inductive IsMinor : UInt8 → Version → Prop
  | zero : IsMinor 48 .http10
  | one : IsMinor 49 .http11

/-- `line` is the method `m`, the target `t` and the version with the last digit `d`. -/
structure RequestLine (line m : Bytes) (method : Method) (t : Bytes) (d : UInt8)
    (version : Version) : Prop where
  eq : line = m ++ space :: (t ++ space :: (httpVersion1 ++ [d]))
  isMethod : IsMethod m method
  no_space : space ∉ t
  isMinor : IsMinor d version

namespace HttpRequest

def methodString (r : HttpRequest) : Bytes :=
  match r.method with
  | .get => ascii ['G', 'E', 'T']
  | .post => ascii ['P', 'O', 'S', 'T']
  | .head => ascii ['H', 'E', 'A', 'D']
  | .put => ascii ['P', 'U', 'T']
  | .delete => ascii ['D', 'E', 'L', 'E', 'T', 'E']
  | .invalid => ascii ['U', 'N', 'K', 'N', 'O', 'W', 'N']

theorem methodOf_of_isMethod {m : Bytes} {method : Method} (h : IsMethod m method) :
    methodOf m = method := by
  rcases h with _ | _ | _ | _ | _ <;> decide

theorem space_not_mem_method {m : Bytes} {method : Method} (h : IsMethod m method) : space ∉ m := by
  rcases h with _ | _ | _ | _ | _ <;> decide

theorem methodString_of_isMethod {m : Bytes} {r : HttpRequest} (h : IsMethod m r.method) :
    r.methodString = m := by
  rw [methodString]
  generalize r.method = method at h
  rcases h with _ | _ | _ | _ | _ <;> rfl

/-- `setMethod` takes the five methods and no other. -/
theorem isMethod_methodOf {m : Bytes} (h : methodOf m ≠ .invalid) : IsMethod m (methodOf m) := by
  by_cases hget : m = ascii ['G', 'E', 'T']
  · rw [methodOf, if_pos hget, hget]
    exact .get
  by_cases hpost : m = ascii ['P', 'O', 'S', 'T']
  · rw [methodOf, if_neg hget, if_pos hpost, hpost]
    exact .post
  by_cases hhead : m = ascii ['H', 'E', 'A', 'D']
  · rw [methodOf, if_neg hget, if_neg hpost, if_pos hhead, hhead]
    exact .head
  by_cases hput : m = ascii ['P', 'U', 'T']
  · rw [methodOf, if_neg hget, if_neg hpost, if_neg hhead, if_pos hput, hput]
    exact .put
  by_cases hdelete : m = ascii ['D', 'E', 'L', 'E', 'T', 'E']
  · rw [methodOf, if_neg hget, if_neg hpost, if_neg hhead, if_neg hput, if_pos hdelete, hdelete]
    exact .delete
  · simp [methodOf, hget, hpost, hhead, hput, hdelete] at h

/-- The target is cut in front of its first question mark. -/
theorem setTarget_eq {r : HttpRequest} (hr : r.query = []) (t : Bytes) :
    r.setTarget t =
      { r with path := t.takeWhile (· ≠ Http.question), query := t.dropWhile (· ≠ Http.question) } := by
  by_cases hmem : Http.question ∈ t
  · obtain ⟨path, query, rfl, hpath⟩ := List.eq_append_cons_of_mem hmem
    have hall : ∀ x ∈ path, decide (x ≠ Http.question) = true := by
      intro x hx
      exact decide_eq_true (ne_of_mem_of_not_mem hx hpath)
    rw [setTarget, cut_cons hpath, List.takeWhile_append_of_pos hall, List.dropWhile_append_of_pos hall]
    simp [setPath, setQuery]
  · -- without a question mark the query is not written
    have hall : ∀ x ∈ t, decide (x ≠ Http.question) = true := by
      intro x hx
      exact decide_eq_true (ne_of_mem_of_not_mem hx hmem)
    rw [setTarget, cut_singleton, if_neg hmem, List.takeWhile_eq_self_iff.mpr hall,
      List.dropWhile_eq_nil_iff.mpr hall, ← hr]
    rfl

theorem setVersionOf_of_isMinor {d : UInt8} {version : Version} (h : IsMinor d version)
    (r : HttpRequest) : r.setVersionOf (httpVersion1 ++ [d]) = (true, r.setVersion version) := by
  rcases h with _ | _ <;> rfl

/-- The eighth byte decides between the versions. -/
theorem isMinor_of_setVersionOf {r : HttpRequest} {word : Bytes} (h : (r.setVersionOf word).1 = true) :
    ∃ d version, word = httpVersion1 ++ [d] ∧ IsMinor d version := by
  rw [setVersionOf] at h
  -- eight bytes that start with `HTTP/1.`; in the other two branches `h` is false
  split_ifs at h with hword hone hzero
  · refine ⟨49, .http11, ?_, .one⟩
    rw [← hword.2, ← hone, List.take_append_drop]
  · refine ⟨48, .http10, ?_, .zero⟩
    rw [← hword.2, ← hzero, List.take_append_drop]

/-- What the code makes of a line of the grammar. -/
theorem processRequestLine_of_requestLine {line m t : Bytes} {method : Method} {d : UInt8}
    {version : Version} (h : RequestLine line m method t d version) :
    ({} : HttpRequest).processRequestLine line =
      (true, { method := method, version := version
               path := t.takeWhile (· ≠ Http.question), query := t.dropWhile (· ≠ Http.question) }) := by
  have hmethod : methodOf m = method := methodOf_of_isMethod h.isMethod
  have hvalid : method ≠ .invalid := by
    rcases h.isMethod with _ | _ | _ | _ | _ <;> decide
  have haccept : (({} : HttpRequest).setMethod m).1 = true := by
    rw [setMethod, hmethod]
    exact decide_eq_true hvalid
  -- method and target have no space, so the first two spaces are those of the grammar
  rw [processRequestLine, h.eq, cut_cons (space_not_mem_method h.isMethod)]
  simp only [haccept, if_true, cut_cons h.no_space]
  rw [setTarget_eq rfl, setVersionOf_of_isMinor h.isMinor, setMethod, hmethod]
  rfl

/-- A line that is accepted is one of the grammar. -/
theorem requestLine_of_processRequestLine {r : HttpRequest} {line : Bytes}
    (h : (r.processRequestLine line).1 = true) :
    ∃ m method t d version, RequestLine line m method t d version := by
  rw [processRequestLine] at h
  -- the two spaces
  rcases hfirst : cut [space] line with _ | ⟨m, rest⟩
  · rw [hfirst] at h
    cases h
  rw [hfirst] at h
  simp only at h
  split at h
  next hmethod =>
    rcases hsecond : cut [space] rest with _ | ⟨t, word⟩
    · rw [hsecond] at h
      cases h
    rw [hsecond] at h
    obtain ⟨d, version, hword, hminor⟩ := isMinor_of_setVersionOf h
    have hspace : space ∉ t := by
      intro hmem
      exact not_infix_of_cut (List.cons_ne_nil _ _) hsecond ((List.singleton_infix_iff _ _).mpr hmem)
    refine ⟨m, methodOf m, t, d, version, ?_, isMethod_methodOf (of_decide_eq_true hmethod), hspace, hminor⟩
    rw [cut_eq_append hfirst, cut_eq_append hsecond, hword]
    simp [List.append_assoc]
  · cases h

/-- **The grammar of request lines.**  A new request accepts a line iff it is of the
    grammar, and then it holds the parts of the line. -/
theorem processRequestLine_iff (line : Bytes) :
    ((({} : HttpRequest).processRequestLine line).1 = true ↔
      ∃ m method t d version, RequestLine line m method t d version) ∧
    ∀ m method t d version, RequestLine line m method t d version →
      (({} : HttpRequest).processRequestLine line).2.method = method ∧
      (({} : HttpRequest).processRequestLine line).2.version = version ∧
      (({} : HttpRequest).processRequestLine line).2.path = t.takeWhile (· ≠ Http.question) ∧
      (({} : HttpRequest).processRequestLine line).2.query = t.dropWhile (· ≠ Http.question) ∧
      (({} : HttpRequest).processRequestLine line).2.path ++
        (({} : HttpRequest).processRequestLine line).2.query = t ∧
      (({} : HttpRequest).processRequestLine line).2.methodString = m := by
  refine ⟨⟨requestLine_of_processRequestLine, ?_⟩, ?_⟩
  · rintro ⟨m, method, t, d, version, h⟩
    rw [processRequestLine_of_requestLine h]
  · intro m method t d version h
    rw [processRequestLine_of_requestLine h]
    exact ⟨rfl, rfl, rfl, rfl, List.takeWhile_append_dropWhile, methodString_of_isMethod h.isMethod⟩

/-- `PUT /a?b?c HTTP/1.0` -/
theorem processRequestLine_iff_put :
    (({} : HttpRequest).processRequestLine (ascii "PUT /a?b?c HTTP/1.0".toList)).2.path =
        ascii "/a".toList ∧
      (({} : HttpRequest).processRequestLine (ascii "PUT /a?b?c HTTP/1.0".toList)).2.query =
        ascii "?b?c".toList := by
  have hline : RequestLine (ascii "PUT /a?b?c HTTP/1.0".toList) (ascii ['P', 'U', 'T']) .put
      (ascii "/a?b?c".toList) 48 .http10 :=
    ⟨by decide, .put, by decide, .zero⟩
  obtain ⟨-, -, hpath, hquery, -⟩ := (processRequestLine_iff _).2 _ _ _ _ _ hline
  rw [hpath, hquery]
  exact ⟨by decide, by decide⟩

end HttpRequest
end Youth.Http
