import Noticeboard.Fetching

/-!
# Figures

What an engine counts, and what it holds, under the names that reports use.
-/

namespace Noticeboard

/-- What an engine holds. -/
def Status.figures (s : Status) : List (String × Nat) := [
  ("boards", s.boards), ("messages", s.messages), ("ghosts", s.ghosts),
  ("ghost_threads", s.deletedRoots), ("absolute_orphans", s.orphans), ("message_lists", s.lists),
  ("pending_fetches", s.toFetch), ("fetch_markers", s.markers),
  ("subscriptions", s.subscriptions), ("outbox", s.outbox), ("deleted_identities", s.deleted)]

/-- What a pass did. -/
def Pass.figures (p : Pass) : List (String × Nat) := [
  ("due", p.due), ("purged", p.purged), ("requested", p.requested), ("fetched", p.fetched),
  ("failed", p.failed), ("rejected", p.rejected), ("published", p.published),
  ("publish_failed", p.publishFailed)]

/-- What an engine has counted, and the two levels that it recorded last. -/
def Counters.figures (c : Counters) : List (String × Nat) := [
  ("ingested", c.ingested), ("duplicates", c.duplicates), ("ghosts_created", c.ghostsCreated),
  ("ghosts_resolved", c.ghostsResolved), ("orphans_adopted", c.orphansAdopted),
  ("inconsistent", c.inconsistent), ("rejected_message", c.rejectedMessages),
  ("rejected_message_list", c.rejectedLists), ("failed_message_not_found", c.messagesNotFound),
  ("failed_message_transient", c.messagesTransient), ("failed_list_not_found", c.listsNotFound),
  ("failed_list_transient", c.listsTransient), ("identity_deletions", c.deletions),
  ("ingest_timings", c.timings), ("boards_tracked", c.boardsTracked),
  ("fetch_markers", c.fetchMarkers)]

end Noticeboard
