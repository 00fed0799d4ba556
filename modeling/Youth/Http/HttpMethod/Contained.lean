/-
  Youth.Http.HttpMethod.Contained

  Which request lines keep the file handlers inside the working directory.

  The three handlers put a dot in front of the path of the request and use it as it is.
  The path is whatever stands in the request line between the first space and the next
  space or question mark, so it may go up from the working directory.  Where it leads is
  told by its normal form (`Youth.Lib.Path`): it stays inside iff it comes down again the
  way it went up.
-/

import Youth.Lib.Path
import Youth.Http.HttpMethod.Basic

namespace Youth.Http

open Youth.Lib
open Youth.Core (File cString)

/-- The path of a request line: from the first space on, up to a space or a question mark. -/
def requestPath (line : Bytes) : Bytes :=
  (((line.dropWhile (· ≠ space)).drop 1).takeWhile (· ≠ space)).takeWhile (· ≠ question)

namespace HttpRequest

theorem setTarget_path (r : HttpRequest) (target : Bytes) :
    (r.setTarget target).path = target.takeWhile (· ≠ Http.question) := by
  rw [setTarget, cut_singleton]
  by_cases hq : Http.question ∈ target
  · rw [if_pos hq]
    rfl
  · rw [if_neg hq]
    refine (List.takeWhile_eq_self_iff.mpr fun x hx => ?_).symm
    rw [decide_eq_true_eq]
    exact ne_of_mem_of_not_mem hx hq

theorem setVersionOf_path (r : HttpRequest) (word : Bytes) : (r.setVersionOf word).2.path = r.path := by
  simp only [setVersionOf]
  split_ifs <;> rfl

/-- The path that an accepted request line sets. -/
theorem processRequestLine_path {r : HttpRequest} {line : Bytes}
    (h : (r.processRequestLine line).1 = true) :
    (r.processRequestLine line).2.path = requestPath line := by
  unfold processRequestLine at h ⊢
  rw [cut_singleton] at h ⊢
  split_ifs at h ⊢ with hmethod
  · dsimp only at h ⊢
    split_ifs at h ⊢
    · rw [cut_singleton] at h ⊢
      split_ifs at h ⊢ with htarget
      · dsimp only at h ⊢
        rw [setVersionOf_path, setTarget_path]
        rfl

end HttpRequest

namespace HttpMethodBuilder

def slash : UInt8 := 47
def dot : UInt8 := 46

/-- The location that a path denotes in the working directory `cwd`. -/
def location (cwd : List Bytes) (path : Bytes) : List Bytes := Path.resolveText slash dot cwd path

end HttpMethodBuilder

open HttpMethodBuilder

/-- The call stays inside the working directory, and does not remove it. -/
def FileCall.Contained (cwd : List Bytes) : FileCall → Prop
  | .openRead path | .openWrite path => cwd <+: location cwd path
  | .removeAll path => cwd <+: location cwd path ∧ location cwd path ≠ cwd

namespace HttpMethodBuilder

/-- The normal form of the path that the handlers make of a request line. -/
def normalPath (line : Bytes) : Path.Normal Bytes :=
  Path.normal (Path.components slash dot (cString (ascii ['.'] ++ requestPath line)))

/-- The part of the working directory that a path with this normal form goes up through. -/
def climbed (cwd : List Bytes) (n : Path.Normal Bytes) : List Bytes :=
  cwd.drop (cwd.length - n.ups)

/-- The path comes down the way it went up; a path to remove also goes on from there. -/
def ComesBack (cwd : List Bytes) (n : Path.Normal Bytes) : FileCall → Prop
  | .openRead _ | .openWrite _ => climbed cwd n <+: n.names
  | .removeAll _ => climbed cwd n <+: n.names ∧ n.names ≠ climbed cwd n

variable {fs : FileSystem} {c : HttpContext File} {resp : HttpResponse} {call : FileCall}

/-- All calls are made with the path of the request, each by the handler of its method. -/
theorem fileCalls_cases (h : call ∈ fileCalls fs c resp) :
    (call = .openWrite (filePath c.request) ∧ c.request.method = .put) ∨
    (call = .openRead (filePath c.request) ∧ c.request.method = .get) ∨
    (call = .removeAll (filePath c.request) ∧ c.request.method = .delete) := by
  rw [fileCalls, List.mem_append, List.mem_append] at h
  rcases h with (hput | hget) | hdelete
  · unfold putReadyRead at hput
    split at hput
    · cases hput
    next hmethod =>
      split at hput
      · cases hput
      · dsimp only at hput
        split at hput <;>
          exact .inl ⟨List.mem_singleton.mp hput, Decidable.not_not.mp hmethod⟩
  · unfold getFile at hget
    split at hget
    · cases hget
    next hmethod =>
      dsimp only at hget
      split at hget <;>
        exact .inr (.inl ⟨List.mem_singleton.mp hget, Decidable.not_not.mp hmethod⟩)
  · unfold deletePath at hdelete
    split at hdelete
    · cases hdelete
    next hmethod =>
      exact .inr (.inr ⟨List.mem_singleton.mp hdelete, Decidable.not_not.mp hmethod⟩)

/-- The dot in front makes the path a relative one. -/
theorem location_filePath (cwd : List Bytes) (req : HttpRequest) : location cwd (filePath req) =
    Path.resolve cwd (Path.components slash dot (filePath req)) := rfl

/-- For every request line that the parser accepts, in every working directory: a call of
    the three handlers stays inside (and a removal spares the directory itself) iff the
    path comes down the way it goes up. -/
theorem fileCall_contained_iff (cwd : List Bytes) (fs : FileSystem) (c : HttpContext File)
    (resp : HttpResponse) (line : Bytes) (haccepted : (c.request.processRequestLine line).1 = true)
    (call : FileCall)
    (hcall : call ∈ fileCalls fs { c with request := (c.request.processRequestLine line).2 } resp) :
    call.Contained cwd ↔ ComesBack cwd (normalPath line) call := by
  have hpath : normalPath line = Path.normal (Path.components slash dot
      (filePath (c.request.processRequestLine line).2)) := by
    rw [filePath, HttpRequest.processRequestLine_path haccepted]
    rfl
  rw [hpath]
  rcases fileCalls_cases hcall with ⟨rfl, -⟩ | ⟨rfl, -⟩ | ⟨rfl, -⟩
  · simp only [FileCall.Contained, location_filePath]
    exact Path.prefix_resolve_iff
  · simp only [FileCall.Contained, location_filePath]
    exact Path.prefix_resolve_iff
  · simp only [FileCall.Contained, location_filePath]
    exact and_congr Path.prefix_resolve_iff (not_congr Path.resolve_eq_self_iff)

/-- A file system in which every call succeeds. -/
def anyFile : FileSystem := ⟨fun _ => some [], fun _ => true, fun _ => some 1⟩

/-- In the directory `/srv` a file is asked for by a way through the directory above. -/
def roundTrip : Bytes := ascii "GET /a/../../srv/b HTTP/1.1".toList

theorem fileCall_contained_iff_roundTrip :
    FileCall.Contained [ascii "srv".toList]
      (.openRead (ascii "./a/../../srv/b".toList)) := by
  have haccepted : (HttpRequest.processRequestLine {} roundTrip).1 = true := by decide
  refine (fileCall_contained_iff [ascii "srv".toList] anyFile {} ⟨[], .kUnknown, [], false, [], -1⟩
    roundTrip haccepted _ ?_).mpr ?_
  · decide
  · show climbed [ascii "srv".toList] (normalPath roundTrip) <+: (normalPath roundTrip).names
    decide

/-- A request for a file of the directory above, and one to remove the directory itself. -/
theorem fileCall_not_contained :
    ((HttpRequest.processRequestLine {} (ascii "GET /../x HTTP/1.1".toList)).1 = true ∧
      ∃ call ∈ fileCalls anyFile
        { request := (HttpRequest.processRequestLine {} (ascii "GET /../x HTTP/1.1".toList)).2 }
        ⟨[], .kUnknown, [], false, [], -1⟩, ¬call.Contained [ascii "srv".toList]) ∧
    ((HttpRequest.processRequestLine {} (ascii "DELETE / HTTP/1.1".toList)).1 = true ∧
      ∃ call ∈ fileCalls anyFile
        { request := (HttpRequest.processRequestLine {} (ascii "DELETE / HTTP/1.1".toList)).2 }
        ⟨[], .kUnknown, [], false, [], -1⟩, ¬call.Contained [ascii "srv".toList]) := by
  refine ⟨⟨by decide, .openRead (ascii "./../x".toList), by decide, ?_⟩,
    ⟨by decide, .removeAll (ascii "./".toList), by decide, ?_⟩⟩
  · show ¬[ascii "srv".toList] <+: location [ascii "srv".toList] (ascii "./../x".toList)
    decide
  · rintro ⟨-, hother⟩
    exact hother (by decide)

end HttpMethodBuilder
end Youth.Http
