import StridedViews.Text.Record

/-!
Registries: the books on the buffers made through them. A registry counts the buffers and bytes not
yet torn down, and by which cause each buffer was torn down.
-/

namespace StridedViews

/-- Why a buffer was torn down. -/
inductive ReleaseCause where
  /-- Its release was called for. -/
  | explicit
  /-- Its last reference detached while nothing pinned it, or its last pin went after that. -/
  | deferred
  /-- Its last share went before it was released. -/
  | dropped
  deriving DecidableEq, Repr

/-- What has happened to the buffers of a registry. -/
structure ReleaseStats where
  buffersCreated : Nat := 0
  bytesCreated : Nat := 0
  explicitReleases : Nat := 0
  deferredReleases : Nat := 0
  droppedReleases : Nat := 0
  /-- Releases that found their buffer torn down already. -/
  redundantReleases : Nat := 0
  peakLiveBytes : Nat := 0
  deriving DecidableEq, Repr, Inhabited

namespace ReleaseStats

/-- Teardowns of any cause. -/
def totalReleases (s : ReleaseStats) : Nat :=
  s.explicitReleases + s.deferredReleases + s.droppedReleases

/-- Counts one teardown. -/
def addRelease (s : ReleaseStats) : ReleaseCause → ReleaseStats
  | .explicit => { s with explicitReleases := s.explicitReleases + 1 }
  | .deferred => { s with deferredReleases := s.deferredReleases + 1 }
  | .dropped => { s with droppedReleases := s.droppedReleases + 1 }

/-- One line for a reader. -/
def summary (s : ReleaseStats) : String :=
  ", ".intercalate
    [s!"buffers: {s.buffersCreated} ({s.bytesCreated} bytes)",
     " / ".intercalate
      [s!"released: {s.explicitReleases} explicit", s!"{s.deferredReleases} deferred",
       s!"{s.droppedReleases} dropped"],
     s!"redundant: {s.redundantReleases}", s!"peak live: {s.peakLiveBytes} bytes"]

theorem totalReleases_addRelease (s : ReleaseStats) (c : ReleaseCause) :
    (s.addRelease c).totalReleases = s.totalReleases + 1 := by
  cases c <;> simp only [addRelease, totalReleases] <;> omega

end ReleaseStats

/-- The books of one registry. -/
structure Registry where
  liveBuffers : Nat := 0
  liveBytes : Nat := 0
  stats : ReleaseStats := {}
  deriving DecidableEq, Repr, Inhabited

namespace Registry

/-- Enters a new buffer. -/
def recordCreated (r : Registry) (length : Nat) : Registry :=
  let live := r.liveBytes + length
  { liveBuffers := r.liveBuffers + 1
    liveBytes := live
    stats :=
      { r.stats with
        buffersCreated := r.stats.buffersCreated + 1
        bytesCreated := r.stats.bytesCreated + length
        peakLiveBytes := max r.stats.peakLiveBytes live } }

/-- Enters a teardown. -/
def recordTeardown (r : Registry) (length : Nat) (cause : ReleaseCause) : Registry :=
  { liveBuffers := r.liveBuffers - 1
    liveBytes := r.liveBytes - length
    stats := r.stats.addRelease cause }

/-- Enters a release that found nothing to do. -/
def recordRedundant (r : Registry) : Registry :=
  { r with stats := { r.stats with redundantReleases := r.stats.redundantReleases + 1 } }

/-- The text of a registry. -/
def describe (r : Registry) : String :=
  Text.describe "BufferRegistry"
    [("live_buffers", toString r.liveBuffers), ("live_bytes", toString r.liveBytes)]

end Registry
end StridedViews
