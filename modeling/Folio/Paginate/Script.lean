import Folio.Settings

/-!
The script that lays out the pages of a document in the browser that prints it, and how its end is
recognized.
-/
namespace Folio.Paginate

/-- The attribute of the root that tells how the layout ended. -/
def doneAttribute : String := "data-paginated"

/-- The attribute of the root that holds the number of pages. -/
def countAttribute : String := "data-page-count"

/-- The lines of the script after the one that sets the space kept free. -/
def scriptLines : List String := [
  "  var root = document.documentElement;",
  "",
  "  // Resolve a CSS length custom property (mm, in, px, ...) to pixels.",
  "  function lengthVarPx(name) \x7b",
  "    var probe = document.createElement('div');",
  "    probe.style.cssText = 'position:absolute;visibility:hidden;left:0;top:0;width:0;height:var(' + name + ', 0px);';",
  "    document.body.appendChild(probe);",
  "    var px = probe.getBoundingClientRect().height || 0;",
  "    probe.remove();",
  "    return px;",
  "  \x7d",
  "",
  "  function applyOverrides(page) \x7b",
  "    var noHeader = page.classList.contains('no-header');",
  "    var noFooter = page.classList.contains('no-footer');",
  "    var hh = page.getAttribute('data-header-height');",
  "    var fh = page.getAttribute('data-footer-height');",
  "",
  "    if (noHeader) \x7b",
  "      page.style.setProperty('--header-h', '0px');",
  "      var header = page.querySelector(':scope > header');",
  "      if (header) header.remove();",
  "    \x7d else if (hh) \x7b",
  "      page.style.setProperty('--header-h', hh);",
  "    \x7d",
  "",
  "    if (noFooter) \x7b",
  "      page.style.setProperty('--footer-h', '0px');",
  "      var footer = page.querySelector(':scope > footer');",
  "      if (footer) footer.remove();",
  "    \x7d else if (fh) \x7b",
  "      page.style.setProperty('--footer-h', fh);",
  "    \x7d",
  "",
  "    var cs = getComputedStyle(page);",
  "    var body = page.querySelector(':scope > main.body');",
  "    if (body) \x7b",
  "      body.style.top = noHeader ? '0px' : cs.getPropertyValue('--header-h').trim();",
  "      body.style.bottom = noFooter ? '0px' : cs.getPropertyValue('--footer-h').trim();",
  "    \x7d",
  "  \x7d",
  "",
  "  function ensureFlow(page) \x7b",
  "    var body = page.querySelector(':scope > main.body');",
  "    if (!body) \x7b",
  "      body = document.createElement('main');",
  "      body.className = 'body';",
  "      var footer = page.querySelector(':scope > footer');",
  "      page.insertBefore(body, footer);",
  "    \x7d",
  "    var flow = body.querySelector(':scope > .flow');",
  "    if (!flow) \x7b",
  "      flow = document.createElement('div');",
  "      flow.className = 'flow';",
  "      Array.from(body.childNodes).forEach(function (node) \x7b flow.appendChild(node); \x7d);",
  "      body.appendChild(flow);",
  "    \x7d",
  "    return \x7b page: page, body: body, flow: flow \x7d;",
  "  \x7d",
  "",
  "  // Only element nodes take part in the flow; loose text is wrapped, whitespace and comments dropped.",
  "  function flowItems(flow) \x7b",
  "    var items = [];",
  "    Array.from(flow.childNodes).forEach(function (node) \x7b",
  "      if (node.nodeType === Node.ELEMENT_NODE) \x7b",
  "        items.push(node);",
  "      \x7d else if (node.nodeType === Node.TEXT_NODE && node.textContent.trim()) \x7b",
  "        var wrap = document.createElement('div');",
  "        wrap.className = 'flow-text';",
  "        wrap.appendChild(document.createTextNode(node.textContent));",
  "        items.push(wrap);",
  "      \x7d",
  "    \x7d);",
  "    flow.innerHTML = '';",
  "    return items;",
  "  \x7d",
  "",
  "  // A box is \x7bpage, body, flow\x7d; new boxes are copies of an empty template so nothing is shared.",
  "  function boxFrom(template, after) \x7b",
  "    var page = template.cloneNode(true);",
  "    after.parentNode.insertBefore(page, after.nextSibling);",
  "    return \x7b",
  "      page: page,",
  "      body: page.querySelector(':scope > main.body'),",
  "      flow: page.querySelector(':scope > main.body > .flow')",
  "    \x7d;",
  "  \x7d",
  "",
  "  function safeBottom(box, safeBottomOffset) \x7b",
  "    var rect = box.body.getBoundingClientRect();",
  "    var padBottom = parseFloat(getComputedStyle(box.body).paddingBottom) || 0;",
  "    return rect.bottom - padBottom - safeBottomOffset - BUFFER;",
  "  \x7d",
  "",
  "  function paginatePage(authored, safeBottomOffset) \x7b",
  "    applyOverrides(authored);",
  "    var first = ensureFlow(authored);",
  "    var items = flowItems(first.flow);",
  "",
  "    var template = authored.cloneNode(true);",
  "",
  "    var boxes = [first.page];",
  "    var cur = first;",
  "",
  "    items.forEach(function (el) \x7b",
  "      if (el.classList && el.classList.contains('forcePageEnd')) \x7b",
  "        if (cur.flow.childElementCount > 0) \x7b",
  "          cur = boxFrom(template, cur.page);",
  "          boxes.push(cur.page);",
  "        \x7d",
  "        return;",
  "      \x7d",
  "",
  "      cur.flow.appendChild(el);",
  "      var overflow = el.getBoundingClientRect().bottom > safeBottom(cur, safeBottomOffset);",
  "",
  "      // An item alone in its box stays put even if it does not fit.",
  "      if (overflow && cur.flow.childElementCount > 1) \x7b",
  "        cur.flow.removeChild(el);",
  "        cur = boxFrom(template, cur.page);",
  "        boxes.push(cur.page);",
  "        cur.flow.appendChild(el);",
  "      \x7d",
  "    \x7d);",
  "    return boxes;",
  "  \x7d",
  "",
  "  function numberPages(boxes) \x7b",
  "    var total = boxes.length;",
  "    boxes.forEach(function (page, i) \x7b",
  "      page.querySelectorAll(':scope > footer .pagecount, :scope > .footer .pagecount').forEach(function (pc) \x7b",
  "        var cur = pc.querySelector('.current');",
  "        var tot = pc.querySelector('.total');",
  "        if (cur) cur.textContent = String(i + 1);",
  "        if (tot) tot.textContent = String(total);",
  "      \x7d);",
  "    \x7d);",
  "  \x7d",
  "",
  "  function paginate() \x7b",
  "    if (root.getAttribute('data-paginated')) return;",
  "    try \x7b",
  "      var safeBottomOffset = lengthVarPx('--safe-bottom-offset');",
  "      var authored = Array.from(document.querySelectorAll('.document > section.page'));",
  "      var boxes = [];",
  "      authored.forEach(function (page) \x7b",
  "        boxes = boxes.concat(paginatePage(page, safeBottomOffset));",
  "      \x7d);",
  "      numberPages(boxes);",
  "      root.setAttribute('data-page-count', String(boxes.length));",
  "      root.setAttribute('data-paginated', 'true');",
  "    \x7d catch (err) \x7b",
  "      root.setAttribute('data-paginated', 'error');",
  "      throw err;",
  "    \x7d",
  "  \x7d",
  "",
  "  if (document.readyState === 'complete') \x7b",
  "    paginate();",
  "  \x7d else \x7b",
  "    window.addEventListener('load', paginate);",
  "  \x7d",
  "\x7d)();"]

/-- The line that sets the space kept free at the bottom of a page. -/
def bufferLine : Chars := "  var BUFFER = ".runes ++ Text.decimal Settings.overflowBuffer ++ [.of ';']

/-- The script. -/
def scriptSource : Chars :=
  (["(function () \x7b".runes, bufferLine] ++ scriptLines.map String.runes).flatMap
    fun line => line ++ [.of '\n']

/-- The script in its tag. -/
def scriptTag : Chars :=
  "<script id=\"bundle-paginator\">\n".runes ++ scriptSource ++ "</script>".runes

/-- Reads an attribute of the root. -/
def attributeExpression (name : String) : Chars :=
  "document.documentElement.getAttribute('".runes ++ name.runes ++ "')".runes

/-- Whether the layout has ended, as the browser is asked. -/
def completionExpression : Chars := "() => !!".runes ++ attributeExpression doneAttribute

/-- How the layout has ended, as the browser is asked. -/
def stateExpression : Chars := "() => ".runes ++ attributeExpression doneAttribute

/-- How many pages there are, as the browser is asked. -/
def countExpression : Chars := "() => ".runes ++ attributeExpression countAttribute

end Folio.Paginate
