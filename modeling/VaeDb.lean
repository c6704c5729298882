import VaeDb.Basic
import VaeDb.Library.Transition
import VaeDb.Server.Site
import VaeDb.Server.Authentication
import VaeDb.Server.Protocol
import VaeDb.Server.SingleLoad
import VaeDb.Server.RightSite
import VaeDb.Server.Admission
import VaeDb.Server.Reload
import VaeDb.Library.Table
import VaeDb.Cache.Stores
import VaeDb.Cache.Agreement
import VaeDb.Cache.Interleaving
import VaeDb.Cache.StaleFill
import VaeDb.Library.LexOrder
import VaeDb.Util.NaturalOrder
import VaeDb.Response.Order
import VaeDb.Response.Query
import VaeDb.Response.Window
import VaeDb.Library.Links
import VaeDb.Xml.Heap
import VaeDb.Site.Feed
import VaeDb.Site.Load
import VaeDb.Site.Shape
import VaeDb.Site.Entries
import VaeDb.Site.Removal
import VaeDb.Site.Construction
import VaeDb.Cache.SessionCache
import VaeDb.Locks.SitewideLock
import VaeDb.Locks.Exclusion
import VaeDb.Cache.SharedKeys
import VaeDb.Session.Responses
import VaeDb.Session.ResponseIds
import VaeDb.Library.OrderedMap
import VaeDb.Pool.ConnectionPool
import VaeDb.Session.Binding
import VaeDb.Query.LruCache
import VaeDb.Query.QueryCache
import VaeDb.Site.Association
import VaeDb.Site.Pending
import VaeDb.Site.Adoption
import VaeDb.Site.Associations
import VaeDb.Site.Published
import VaeDb.Site.Liveness
import VaeDb.Library.Slices
import VaeDb.Response.Offsets
import VaeDb.Response.Pages
import VaeDb.Library.Shares
import VaeDb.Response.Groups
import VaeDb.Library.Floats
import VaeDb.Response.Options
import VaeDb.Response.SinglePrecision
import VaeDb.Util.NaturalKey
import VaeDb.Cache.FailedWrites
import VaeDb.S3.FeedCache
import VaeDb.Library.Forests
import VaeDb.Xml.ChildLists
import VaeDb.Xml.Freeing
import VaeDb.Site.Accounts
import VaeDb.Site.Records
import VaeDb.Site.Arrangement
import VaeDb.Site.Mirrors
import VaeDb.Site.TearDown
import VaeDb.Xml.Trees
import VaeDb.Site.Ties
import VaeDb.Site.Orphans
import VaeDb.Site.Restoration
import VaeDb.Site.Destruction
import VaeDb.Util.NaturalLaws
import VaeDb.Library.Firsts
import VaeDb.Response.Unique
import VaeDb.Response.Clamps
import VaeDb.Response.SafeOptions
import VaeDb.Response.Filter
import VaeDb.Response.BlankFilter
import VaeDb.Response.OrderOption
import VaeDb.Library.Stops
import VaeDb.Response.NullContexts
import VaeDb.Library.Patterns
import VaeDb.Query.Constructor
import VaeDb.Query.Loops
import VaeDb.Query.Paths
import VaeDb.Library.Splits
import VaeDb.Query.Symbols
import VaeDb.Query.Segment
import VaeDb.Query.Attributes
import VaeDb.Site.Stopping
import VaeDb.Query.Designs
import VaeDb.Response.CreateInfo
import VaeDb.Query.Bounds
import VaeDb.Response.DesignLookups
import VaeDb.Query.Permalinks
import VaeDb.Util.Tokens
import VaeDb.Library.Occurrences
import VaeDb.Util.Replace
import VaeDb.Library.Admissions
import VaeDb.Query.Recency
import VaeDb.QueryLog.EntryIds
import VaeDb.QueryLog.Quoting
import VaeDb.Query.FieldData
import VaeDb.Library.Threads
import VaeDb.Query.SharedCaches
import VaeDb.Response.Requests
import VaeDb.Library.RecencyLists
import VaeDb.Query.LruTemplate
import VaeDb.Library.Isolation
import VaeDb.Cache.Storage
import VaeDb.Cache.Tenants
import VaeDb.Library.Leases
import VaeDb.Cache.KeepAlive
import VaeDb.Cache.SessionLifetime
import VaeDb.Locks.Recovery
import VaeDb.S3.Transfers
import VaeDb.Site.Indexes
import VaeDb.Library.Guests
import VaeDb.Server.Requests
import VaeDb.Server.Serving
import VaeDb.Library.Calls
import VaeDb.Library.Clocks
import VaeDb.Session.Lifetime
import VaeDb.Server.Progress
import VaeDb.Query.Handles
import VaeDb.Server.Bus
import VaeDb.Server.BusThreads
import VaeDb.Cache.Days
import VaeDb.Library.Simulations
import VaeDb.Locks.Statements
